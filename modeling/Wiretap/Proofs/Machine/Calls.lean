import Wiretap.Proofs.Machine.Lives
import Wiretap.Proofs.Tap.Record

/-!
# The open calls of a tap in a run

Which calls to a tap are open, and what the tap has done in each, can be read off the events of a
run: a call begins when it is received, what the tap does then belongs to the innermost call, and
the call ends when the tap returns. A tap that uses its handle does so between two steps; until the
handle has been used, that is due.
-/

namespace Wiretap

variable {K : Kinds} {σ α ε : Type}

/-- The tap has done something in its innermost call. -/
def note (d : Tap.Doing α ε) : List (Tap.OpenCall α ε) → List (Tap.OpenCall α ε)
  | [] => []
  | call :: calls => call.did [d] :: calls

/-- The open calls of a tap after a deed. -/
def Tap.Deed.file (calls : List (Tap.OpenCall α ε)) : Tap.Deed α ε → List (Tap.OpenCall α ε)
  | .received input => ⟨input, []⟩ :: calls
  | .acted act => note (.act act) calls
  | .sent s => note (.sent s) calls
  | .returned _ => calls.tail
  | _ => calls

/-- The open calls of the tap at a place of a line after an event. -/
def Event.file (line place : Nat) (calls : List (Tap.OpenCall α ε)) :
    Event α ε → List (Tap.OpenCall α ε)
  | .controlled l p c => if l = line ∧ p = place then note (.used c) calls else calls
  | e => (e.deed? line place).elim calls (·.file calls)

/-- The open calls of the tap at a place of a line, the innermost one first. -/
def openCalls (line place : Nat) (events : List (Event α ε)) : List (Tap.OpenCall α ε) :=
  events.foldl (Event.file line place) []

/-- Did a receiver use its handle? -/
def Event.isUse : Event α ε → Bool
  | .controlled .. => true
  | _ => false

/-- Events in which nobody uses a handle. -/
def Useless (events : List (Event α ε)) : Prop := ∀ e ∈ events, e.isUse = false

section

variable {line place : Nat} {events : List (Event α ε)}

theorem openCalls_append (first second : List (Event α ε)) :
    openCalls line place (first ++ second) =
      second.foldl (Event.file line place) (openCalls line place first) := List.foldl_append

/-- As long as nobody uses a handle, the open calls depend on the deeds of the tap alone. -/
theorem Useless.foldl_file (h : Useless events) (calls : List (Tap.OpenCall α ε)) :
    events.foldl (Event.file line place) calls =
      (deeds line place events).foldl Tap.Deed.file calls := by
  induction events generalizing calls with
  | nil => rfl
  | cons e events ih =>
      have he :
          e.file line place calls = (e.deed? line place).toList.foldl Tap.Deed.file calls := by
        have hfirst := h e List.mem_cons_self
        cases e with
        | controlled => cases hfirst
        | _ => cases hdeed : Event.deed? line place _ <;> simp [Event.file, hdeed]
      rw [List.foldl_cons, he, deeds_cons, List.foldl_append,
        ih fun e' he' => h e' (List.mem_cons_of_mem _ he')]

theorem foldl_note_acted (acts : List (Tap.Act α ε)) (call : Tap.OpenCall α ε)
    (calls : List (Tap.OpenCall α ε)) :
    (acts.map .acted).foldl Tap.Deed.file (call :: calls) =
      call.did (acts.map .act) :: calls := by
  induction acts generalizing call with
  | nil => rw [List.map_nil, List.map_nil, Tap.OpenCall.did_nil, List.foldl_nil]
  | cons act acts ih =>
      rw [List.map_cons, List.foldl_cons, Tap.Deed.file, note, ih, Tap.OpenCall.did_did]
      rfl

/-- The handles that a tap uses at the end of a turn. -/
def Tap.Next.uses : Tap.Next α ε → List Control
  | .up _ c _ => [c]
  | _ => []

/-- The open calls after a turn, once the handle has been used that the turn wants to use. -/
theorem foldl_file_turn (turn : Tap.Turn σ α ε) (call : Tap.OpenCall α ε)
    (calls : List (Tap.OpenCall α ε)) :
    (turn.next.uses.map .used).foldl (fun calls d => note d calls)
        (turn.deeds.foldl Tap.Deed.file (call :: calls)) =
      Tap.Record.callsAfter call calls turn := by
  rw [Tap.Turn.deeds, List.foldl_append, foldl_note_acted]
  unfold Tap.Record.callsAfter Tap.Turn.doings
  cases turn.next with
  | answer b => rfl
  | down s r => simp [Tap.Next.deeds, Tap.Next.doings, Tap.Next.uses, Tap.Next.resume?,
      Tap.Deed.file, note, Tap.OpenCall.did_did]
  | up h c r => simp [Tap.Next.deeds, Tap.Next.doings, Tap.Next.uses, Tap.Next.resume?,
      note, Tap.OpenCall.did_did]

end

namespace State

variable {P : Plan σ α ε} {S U : State σ α ε} {line place : Nat} {events : List (Event α ε)}

/-- The use of a handle that is due next at a position. -/
def due (S : State σ α ε) (line place : Nat) : List Control :=
  match S.focus with
  | .call (.control l p _ c) => if l = line ∧ p = place then [c] else []
  | _ => []

/-- The open calls of a tap, with the use of its handle if that is due. -/
def calls (S : State σ α ε) (line place : Nat) (events : List (Event α ε)) :
    List (Tap.OpenCall α ε) :=
  ((S.due line place).map .used).foldl (fun calls d => note d calls) (openCalls line place events)

theorem due_of_back {b : Bool} (h : S.focus = .back b) : S.due line place = [] := by
  rw [due, h]

theorem due_of_outside {b : Bool} (h : S.focus = .outside b) : S.due line place = [] := by
  rw [due, h]

theorem due_of_signal {l position : Nat} {s : Signal α (TapError ε)}
    (h : S.focus = .call (P.signal l position s)) : S.due line place = [] := by
  rw [due, h, Plan.signal]
  by_cases hlt : position < P.depth
  · rw [if_pos hlt]
  · rw [if_neg hlt]

theorem due_of_sourceSignal {l : Nat} {s : Signal α ε}
    (h : S.focus = .call (P.sourceSignal l s)) : S.due line place = [] := by
  rw [due, h, Plan.sourceSignal]
  by_cases hlt : 0 < P.depth
  · rw [if_pos hlt]
  · rw [if_neg hlt]

/-- Where a tap has taken a turn, it uses a handle next if the turn says so. -/
theorem due_of_turned {rest : List (Frame α ε)} {turn : Tap.Turn σ α ε}
    (hturned : Turned P S rest line place turn U) : U.due line place = turn.next.uses := by
  have hnext := hturned.next
  cases hturn : turn.next with
  | answer b =>
      rw [hturn] at hnext
      exact due_of_back hnext.2
  | down s r =>
      rw [hturn] at hnext
      exact due_of_signal hnext.2
  | up h c r =>
      rw [hturn] at hnext
      rw [due, hnext.2]
      simp [Tap.Next.uses]

theorem due_of_turned_other {rest : List (Frame α ε)} {turn : Tap.Turn σ α ε} {l p : Nat}
    (hother : ¬(l = line ∧ p = place)) (hturned : Turned P S rest line place turn U) :
    U.due l p = [] := by
  rcases hturned.focus with ⟨b, hnext⟩ | ⟨s, hnext⟩ | ⟨handle, c, hnext⟩
  · exact due_of_back hnext
  · exact due_of_signal hnext
  · have hne : ¬(line = l ∧ place = p) := fun h => hother ⟨h.1.symm, h.2.symm⟩
    rw [due, hnext]
    simp [hne]

/-! ## The use of handles -/

theorem useless_acted (l p : Nat) (ambient : Context) (acts : List (Tap.Act α ε)) :
    Useless (acts.map (Event.acted l p ambient)) := by
  intro e he
  obtain ⟨act, -, rfl⟩ := List.mem_map.mp he
  rfl

theorem settle_useless (l p : Nat) (guard : Guard) (turn : Tap.Turn σ α ε) :
    Useless (settle P S l p guard turn).2 := by
  have hacts := useless_acted l p S.ambient turn.acts
  intro e he
  unfold settle at he
  cases hturn : turn.next with
  | answer b =>
      simp only [hturn, List.mem_append, List.mem_cons, List.not_mem_nil, or_false] at he
      rcases he with he | rfl | rfl
      · exact hacts e he
      · rfl
      · rfl
  | down s r =>
      simp only [hturn, List.mem_append, List.mem_singleton] at he
      rcases he with he | rfl
      · exact hacts e he
      · rfl
  | up h c r =>
      simp only [hturn] at he
      exact hacts e he

theorem callTap_useless (l p : Nat) (input : Tap.Input α ε) :
    Useless (callTap P S l p input).2 := by
  unfold callTap
  split
  · intro e he
    rcases List.mem_cons.mp he with rfl | he
    · rfl
    rcases List.mem_cons.mp he with rfl | he
    · rfl
    exact settle_useless l p _ _ e he
  · exact fun e he => by cases he

theorem setUpTap_useless (l p : Nat) (context : Context) :
    Useless (setUpTap P S l p context).2 := by
  unfold setUpTap
  split
  · exact fun e he => by cases he
  · dsimp only
    split
    · intro e he
      simp only [refuse, List.mem_cons, List.not_mem_nil, or_false] at he
      rcases he with rfl | rfl <;> rfl
    · split
      all_goals
        intro e he
        simp only [refuse, List.cons_append, List.mem_cons, List.mem_append, List.not_mem_nil,
          or_false] at he
        rcases he with rfl | he | rfl
        · rfl
        · exact useless_acted l p _ _ e he
        · rfl

theorem joinSource_useless (l : Nat) : Useless (joinSource P S l).2 := by
  intro e he
  unfold joinSource at he
  split at he
  · cases he
  · cases he
  · rw [List.mem_singleton.mp he]
    rfl
  · split at he <;>
    · rw [List.mem_singleton.mp he]
      rfl

theorem controlEmission_useless (l : Nat) (c : Control) :
    Useless (controlEmission S l c).2 := by
  intro e he
  unfold controlEmission at he
  split at he
  · split at he
    · cases he
    · rw [List.mem_singleton.mp he]
      rfl
  · cases he
  · cases he

theorem control_useless (l : Nat) (c : Control) (h : Handle) : Useless (control P S l c h).2 := by
  cases h with
  | empty => exact fun e he => by cases he
  | emission => exact controlEmission_useless l c
  | tap p => exact callTap_useless l p _
  | external id =>
      intro e he
      rw [List.mem_singleton.mp he]
      rfl

theorem emit_useless (l : Nat) (emitted : UInt64) : Useless (emit P S l emitted).2 := by
  intro e he
  unfold emit at he
  split at he
  · split at he
    · cases he
    · dsimp only at he
      split at he <;> cases he
    · split at he
      · cases he
      · rw [List.mem_singleton.mp he]
        rfl
  · cases he

theorem resumeTap_useless (l p : Nat) (guard : Guard) (r : Tap.Resume α ε) (b : Bool) :
    Useless (resumeTap P S l p guard r b).2 := by
  unfold resumeTap
  split
  · exact settle_useless l p guard _
  · exact fun e he => by cases he

theorem resume_useless (b : Bool) (f : Frame α ε) : Useless (resume P S b f).2 := by
  cases f with
  | tap l p guard r => exact resumeTap_useless l p guard r b
  | joining l p guard =>
      intro e he
      rw [List.mem_singleton.mp he]
      rfl
  | _ => exact fun e he => by cases he

/-- In a step a handle is used first, if that is due at any place, and then no other. -/
theorem step?_uses (hstep : S.step? P = some (U, events)) :
    (∃ l p h c later, S.focus = .call (.control l p h c) ∧
        events = .controlled l p c :: later ∧ Useless later) ∨
      (∀ l p h c, S.focus ≠ .call (.control l p h c)) ∧ Useless events := by
  unfold step? at hstep
  split at hstep
  · cases hstep
  next c hfocus =>
    obtain rfl : (make P S c).2 = events := congrArg Prod.snd (Option.some.inj hstep)
    cases c with
    | control l p h c =>
        exact .inl ⟨l, p, h, c, _, hfocus, rfl, control_useless l c h⟩
    | join l position context =>
        refine .inr ⟨by simp [hfocus], fun e he => ?_⟩
        rcases List.mem_cons.mp he with rfl | he
        · rfl
        · cases position with
          | zero => exact joinSource_useless l e he
          | succ place => exact setUpTap_useless l place context e he
    | tap l p s => exact .inr ⟨by simp [hfocus], callTap_useless l p _⟩
    | client l s =>
        refine .inr ⟨by simp [hfocus], fun e he => ?_⟩
        rw [List.mem_singleton.mp he]
        rfl
    | emit l n => exact .inr ⟨by simp [hfocus], emit_useless l n⟩
  next b hfocus =>
    refine .inr ⟨by simp [hfocus], ?_⟩
    split at hstep
    · cases hstep
      exact fun e he => by cases he
    next f rest hstack =>
      obtain rfl : (resume P { S with stack := rest } b f).2 = events :=
        congrArg Prod.snd (Option.some.inj hstep)
      exact resume_useless b f

/-- So after any part of a step that reaches beyond the use of the handle, the open calls are those
that there were, with the use if it was due, and with what the tap has done in this part. -/
theorem step?_calls (hstep : S.step? P = some (U, events)) (before : List (Event α ε))
    {first second : List (Event α ε)} (hevents : events = first ++ second)
    (hsecond : ∀ e ∈ second.head?, e.isUse = false) :
    openCalls line place (before ++ first) =
      (deeds line place first).foldl Tap.Deed.file (S.calls line place before) := by
  rw [openCalls_append]
  rcases step?_uses hstep with ⟨l, p, h, c, later, hfocus, rfl, hlater⟩ | ⟨hfocus, huseless⟩
  · cases first with
    | nil =>
        -- The use of the handle would be in the second part.
        rw [List.nil_append] at hevents
        have huse := hsecond (.controlled l p c) (by rw [← hevents]; rfl)
        cases huse
    | cons e first =>
        rw [List.cons_append, List.cons.injEq] at hevents
        obtain ⟨rfl, rfl⟩ := hevents
        have hfirst : Useless first := fun e he => hlater e (List.mem_append_left _ he)
        rw [List.foldl_cons, hfirst.foldl_file, deeds_cons]
        simp only [Event.file, Event.deed?, Option.toList_none, List.nil_append, calls, due, hfocus]
        split <;> rfl
  · have hfirst : Useless first := fun e he => huseless e (hevents ▸ List.mem_append_left _ he)
    have hdue : S.due line place = [] := by
      unfold due
      split
      next l p h c hcall => exact absurd hcall (hfocus l p h c)
      next => rfl
    rw [hfirst.foldl_file, calls, hdue, List.map_nil, List.foldl_nil]

/-! ## What is filed -/

/-- A tap has the first handle that it has been given. -/
theorem Peopled.source_eq {manners : Nat → Tap.Life.Manners σ α ε} (h : S.Peopled P manners events)
    {t : Tap σ} (htap : S.tap? line place = some t) :
    t.source = Tap.firstHandle (deeds line place events) := by
  rcases h.fate line place with ⟨hnone, -, -⟩ | ⟨-, hnone, -, -, -⟩ | ⟨-, hsome, hlived⟩
  · rw [htap] at hnone
    cases hnone
  · rw [htap] at hnone
    cases hnone
  · obtain rfl := Option.some.inj (htap.symm.trans hsome)
    exact hlived.source_eq

/-- Wherever the last hook of a tap has run in the events, the innermost open call was one in which
it may. -/
def Ends (line place : Nat) (events : List (Event α ε)) : Prop :=
  ∀ before ambient ending failure after,
    events = before ++ .acted line place ambient (.ran (.finally ending) failure) :: after →
    ∃ call outer, openCalls line place before = call :: outer ∧
      call.Ends (Tap.firstHandle (deeds line place before)) ending

/-- The open calls of the tap at a place are on record. -/
structure Filed (S : State σ α ε) (events : List (Event α ε)) (line place : Nat) : Prop where
  record : ∀ t, S.tap? line place = some t →
    Tap.Record t (S.pending line place) (S.calls line place events) (deeds line place events)
  /-- Where there is no tap there is no call. -/
  vacant : S.tap? line place = none → openCalls line place events = []
  ends : Ends line place events

theorem calls_of_nil (h : openCalls line place events = []) : S.calls line place events = [] := by
  have hnil : ∀ ds : List (Tap.Doing α ε),
      ds.foldl (fun calls d => note d calls) ([] : List (Tap.OpenCall α ε)) = [] := by
    intro ds
    induction ds with
    | nil => rfl
    | cons d ds ih => exact ih
  rw [calls, h, hnil]

theorem Ends.append {before : List (Event α ε)} (h : Ends line place before)
    (hnew : ∀ first ambient ending failure after,
      events = first ++ .acted line place ambient (.ran (.finally ending) failure) :: after →
      ∃ call outer, openCalls line place (before ++ first) = call :: outer ∧
        call.Ends (Tap.firstHandle (deeds line place (before ++ first))) ending) :
    Ends line place (before ++ events) := by
  intro before' ambient ending failure after hsplit
  rcases List.append_eq_append_iff.mp hsplit with ⟨first, rfl, hevents⟩ | ⟨last, hbefore, hlast⟩
  · exact hnew first ambient ending failure after hevents
  · cases last with
    | nil =>
        rw [List.append_nil] at hbefore
        subst hbefore
        have hfirst := hnew [] ambient ending failure after hlast.symm
        rwa [List.append_nil] at hfirst
    | cons e last =>
        rw [List.cons_append, List.cons.injEq] at hlast
        obtain ⟨rfl, rfl⟩ := hlast
        exact h before' ambient ending failure last hbefore

/-- In events that show nothing of a tap no hook of it has run. -/
theorem not_acted_of_deeds (hdeeds : deeds line place events = []) {first after : List (Event α ε)}
    {ambient : Context} {act : Tap.Act α ε}
    (hevents : events = first ++ .acted line place ambient act :: after) : False := by
  rw [hevents, deeds_append, deeds_cons] at hdeeds
  simp [Event.deed?] at hdeeds

namespace Filed

variable {before : List (Event α ε)}

/-- Nothing has happened to the tap. -/
theorem rest (h : S.Filed before line place) (hstep : S.step? P = some (U, events))
    (htap : U.tap? line place = S.tap? line place)
    (hpending : U.pending line place = S.pending line place)
    (hdeeds : deeds line place events = []) (hdue : U.due line place = []) :
    U.Filed (before ++ events) line place := by
  have hopen : openCalls line place (before ++ events) = S.calls line place before := by
    rw [step?_calls hstep before (List.append_nil events).symm (by simp), hdeeds]
    rfl
  have hcalls : U.calls line place (before ++ events) = S.calls line place before := by
    rw [calls, hdue, hopen]
    rfl
  constructor
  · intro t ht
    have hrecord := h.record t (htap ▸ ht)
    rwa [hcalls, hpending, deeds_append, hdeeds, List.append_nil]
  · intro hnone
    rw [hopen]
    exact calls_of_nil (h.vacant (htap ▸ hnone))
  · exact h.ends.append fun first ambient ending failure after hevents =>
      (not_acted_of_deeds hdeeds hevents).elim

/-- Where there is no tap, one is set up, or could not be. -/
theorem setUp (h : S.Filed before line place) (hstep : S.step? P = some (U, events))
    (hnone : S.tap? line place = none) (hbefore : deeds line place before = [])
    (hpending : U.pending line place = []) {shown : List (Tap.Deed α ε)}
    (hdeeds : deeds line place events = shown)
    (hshown : shown.foldl Tap.Deed.file ([] : List (Tap.OpenCall α ε)) = [])
    (hquiet : ∀ ending failure, .acted (.ran (.finally ending) failure) ∉ shown)
    (hnow : ∀ t, U.tap? line place = some t → ∃ listener context, t = .start listener context ∧
      shown = [.created none, .acted (.ran .first none), .acted (.augmented none)]) :
    U.Filed (before ++ events) line place := by
  have hopen : openCalls line place (before ++ events) = [] := by
    rw [step?_calls hstep before (List.append_nil events).symm (by simp), hdeeds,
      calls_of_nil (h.vacant hnone), hshown]
  constructor
  · intro t ht
    obtain ⟨listener, context, rfl, hborn⟩ := hnow t ht
    rw [hpending, calls_of_nil hopen, deeds_append, hbefore, hdeeds, List.nil_append]
    exact .start listener context (.inr hborn)
  · exact fun _ => hopen
  · refine h.ends.append fun first ambient ending failure after hevents => ?_
    refine absurd ?_ (hquiet ending failure)
    rw [← hdeeds, hevents, deeds_append, deeds_cons]
    simp [Event.deed?]

/-- The tap has taken a turn in a call. -/
theorem turn (h : S.Filed before line place) (hstep : S.step? P = some (U, events)) {t : Tap σ}
    {turn : Tap.Turn σ α ε} {call : Tap.OpenCall α ε} {outer : List (Tap.OpenCall α ε)}
    (begun : List (Tap.Deed α ε)) {rest : List (Frame α ε)}
    (hplace : S.HasPlace line place) (hturned : Turned P S rest line place turn U)
    (hdeeds : deeds line place events = begun ++ turn.deeds)
    (hbegun : begun.foldl Tap.Deed.file (S.calls line place before) = call :: outer)
    (hinactive : ∀ act, .acted act ∉ begun)
    (hhandle : ∀ doings ending, (call.did doings).Ends t.source ending →
      t.source = Tap.firstHandle (deeds line place before ++ begun))
    (hbooks : turn.Books t call)
    (hrecord : Tap.Record turn.tap
      (turn.next.resume?.toList ++ rest.filterMap (Frame.resume? line place))
      (Tap.Record.callsAfter call outer turn) (deeds line place before ++ begun ++ turn.deeds)) :
    U.Filed (before ++ events) line place := by
  have hnow : U.tap? line place = some turn.tap := by
    rw [tap?_eq hturned.lines]
    exact setTap_tap?_self hplace _
  have hcalls : U.calls line place (before ++ events) = Tap.Record.callsAfter call outer turn := by
    rw [calls, due_of_turned hturned,
      step?_calls hstep before (List.append_nil events).symm (by simp), hdeeds, List.foldl_append,
      hbegun, foldl_file_turn]
  constructor
  · intro u hu
    rw [hnow, Option.some.injEq] at hu
    subst hu
    rwa [hcalls, turned_pending hturned, deeds_append, hdeeds, ← List.append_assoc]
  · intro hnone
    rw [hnow] at hnone
    cases hnone
  · refine h.ends.append fun first ambient ending failure after hevents => ?_
    have hsplit := hdeeds
    rw [hevents, deeds_append, deeds_cons] at hsplit
    simp only [Event.deed?, and_self, if_true, Option.toList_some, List.singleton_append] at hsplit
    obtain ⟨acts, others, hacts, hfirst⟩ := Tap.Turn.acts_of_begun hinactive hsplit.symm
    have hends := hbooks.ends acts ending failure others hacts
    have hnone : Tap.firstHandle (acts.map (.acted : Tap.Act α ε → Tap.Deed α ε)) = none := by
      simp [Tap.firstHandle, Tap.Deed.handle?]
    refine ⟨call.did (acts.map .act), outer, ?_, ?_⟩
    · rw [step?_calls hstep before hevents (by simp [Event.isUse]), hfirst, List.foldl_append,
        hbegun, foldl_note_acted]
    · rw [deeds_append, hfirst, ← List.append_assoc, Tap.firstHandle_append, hnone, Option.or_none,
        ← hhandle _ _ hends]
      exact hends

/-- The tap is called. -/
theorem serve (h : S.Filed before line place) (hstep : S.step? P = some (U, events)) {t : Tap σ}
    {plan : TapPlan σ α ε} {input : Tap.Input α ε} (htap : S.tap? line place = some t)
    (hsource : t.source = Tap.firstHandle (deeds line place before))
    (hturned : Turned P S S.stack line place (S.served plan t line place input) U)
    (hshows : Shows line place (.received input :: (S.served plan t line place input).deeds)
      events) :
    U.Filed (before ++ events) line place := by
  have hserve := (h.record t htap).serve (plan.listener (S.inside plan t)) (.tap place)
    (S.isConditional line) input
  refine h.turn hstep [.received input] (hasPlace_of_tap? (by simp [htap])) hturned
    hshows.here rfl (by simp) (fun doings ending hends => ?_) hserve.1 hserve.2
  have hnone : Tap.firstHandle [(.received input : Tap.Deed α ε)] = none := hends.handle
  rw [Tap.firstHandle_append, ← hsource, hnone, Option.or_none]

/-- The tap goes on with the innermost open call. -/
theorem resume (h : S.Filed before line place) (hstep : S.step? P = some (U, events)) {t : Tap σ}
    {plan : TapPlan σ α ε} {guard : Guard} {r : Tap.Resume α ε} {rest : List (Frame α ε)} {b : Bool}
    (hstack : S.stack = .tap line place guard r :: rest) (htap : S.tap? line place = some t)
    (hsource : t.source = Tap.firstHandle (deeds line place before))
    (hturned : Turned P S rest line place (t.resume (plan.listener S.ambient) r b) U)
    (hshows : Shows line place (t.resume (plan.listener S.ambient) r b).deeds events) :
    U.Filed (before ++ events) line place := by
  have hpending : S.pending line place = r :: rest.filterMap (Frame.resume? line place) := by
    rw [pending, hstack, List.filterMap_cons_some (b := r) (by simp [Frame.resume?])]
  have hrecord := h.record t htap
  rw [hpending] at hrecord
  cases hcalls : S.calls line place before with
  | nil =>
      rw [hcalls] at hrecord
      exact absurd hrecord.fits (by simp)
  | cons call outer =>
      rw [hcalls] at hrecord
      have hresume := hrecord.resume (plan.listener S.ambient) b
      refine h.turn hstep [] (hasPlace_of_tap? (by simp [htap])) hturned
        hshows.here hcalls (by simp) (fun _ _ _ => ?_) hresume.1 (by simpa using hresume.2)
      rw [List.append_nil, hsource]

/-- In a step the record of the tap is kept. -/
theorem step (hassembled : S.Assembled P) {manners : Nat → Tap.Life.Manners σ α ε}
    (hpeopled : S.Peopled P manners before) (h : S.Filed before line place)
    (hstep : S.step? P = some (U, events)) : U.Filed (before ++ events) line place := by
  have hsource : ∀ t, S.tap? line place = some t →
      t.source = Tap.firstHandle (deeds line place before) := fun t ht => hpeopled.source_eq ht
  have hbare : U.lines.map Line.bare = S.lines.map Line.bare →
      U.tap? line place = S.tap? line place := fun hlines => tap?_of_bare hlines line place
  cases step?_stepped hstep with
  | @serve c l p input plan t hfocus hinput hplan htap hturned hshows =>
      by_cases hhere : line = l ∧ place = p
      · obtain ⟨rfl, rfl⟩ := hhere
        exact h.serve hstep htap (hsource t htap) hturned hshows
      · exact h.rest hstep ((tap?_eq hturned.lines line place).trans (setTap_tap?_other hhere _))
          (turned_pending_other hhere hturned) (hshows.elsewhere line place hhere)
          (due_of_turned_other hhere hturned)
  | @resume b l p guard r rest plan t hfocus hstack hplan htap hturned hshows =>
      by_cases hhere : line = l ∧ place = p
      · obtain ⟨rfl, rfl⟩ := hhere
        exact h.resume hstep hstack htap (hsource t htap) hturned hshows
      · refine h.rest hstep ((tap?_eq hturned.lines line place).trans (setTap_tap?_other hhere _))
          ?_ (hshows.elsewhere line place hhere) (due_of_turned_other hhere hturned)
        rw [turned_pending_other hhere hturned, pending_cons hstack (resume?_other hhere guard r)]
  | @setUp l p context plan listener augmented guard hfocus hplan hlines hstack hnext hshows =>
      have hpending : U.pending line place = S.pending line place :=
        pending_cons hstack (resume?_foreign rfl)
      have hdue : U.due line place = [] := by rw [due, hnext]
      by_cases hhere : line = l ∧ place = p
      · obtain ⟨rfl, rfl⟩ := hhere
        obtain ⟨hnone, hidle, hempty⟩ := hpeopled.vacant hassembled hfocus
        have hjoining := hassembled.joining _ _ _ hfocus
        refine h.setUp hstep hnone hempty (hpending.trans hidle) hshows.here rfl (by simp)
          fun t ht => ⟨listener, augmented, ?_, rfl⟩
        rw [tap?_eq hlines,
          setTap_tap?_self (hassembled.hasPlace hjoining.started hjoining.inside)] at ht
        exact (Option.some.inj ht).symm
      · exact h.rest hstep ((tap?_eq hlines line place).trans (setTap_tap?_other hhere _)) hpending
          (hshows.elsewhere line place hhere) hdue
  | @refuse l p context plan f shown hfocus hplan hlines hstack hnext hfails hshows =>
      have hpending : U.pending line place = S.pending line place := pending_cons hstack rfl
      have hdue : U.due line place = [] := due_of_signal hnext
      by_cases hhere : line = l ∧ place = p
      · obtain ⟨rfl, rfl⟩ := hhere
        obtain ⟨hnone, hidle, hempty⟩ := hpeopled.vacant hassembled hfocus
        refine h.setUp hstep hnone hempty (hpending.trans hidle) hshows.here ?_ ?_
          fun t ht => ?_
        · cases hfails <;> rfl
        · cases hfails <;> simp
        · rw [tap?_eq hlines, hnone] at ht
          cases ht
      · exact h.rest hstep (tap?_eq hlines line place) hpending
          (hshows.elsewhere line place hhere) hdue
  | explain hfocus hstack hlines hrest hnext hquiet =>
      refine h.rest hstep (tap?_eq hlines line place) ?_ (hquiet.deeds line place)
        (due_of_signal hnext)
      rw [pending_cons hstack rfl, pending, hrest]
  | hear hfocus hlines hstack hnext hevents =>
      refine h.rest hstep (receive_tap? hlines line place)
        (pending_cons hstack (resume?_foreign rfl))
        ?_ (due_of_outside hnext)
      rw [hevents]
      rfl
  | callOut hfocus hcall hlines hstack hnext hquiet =>
      exact h.rest hstep (tap?_eq hlines line place) (pending_cons hstack (resume?_foreign rfl))
        (hquiet.deeds line place) (due_of_outside hnext)
  | endStream hfocus hlines hstack hnext hquiet =>
      exact h.rest hstep (tap?_eq hlines line place) (pending_cons hstack (resume?_foreign rfl))
        (hquiet.deeds line place) (due_of_sourceSignal hnext)
  | ended hfocus hstack hlines hrest hnext hs hquiet =>
      refine h.rest hstep (tap?_eq hlines line place) ?_ (hquiet.deeds line place)
        (due_of_sourceSignal hnext)
      rw [pending_cons hstack (resume?_foreign rfl), pending, hrest]
  | startEmission hfocus hlines hstack hnext hquiet =>
      exact h.rest hstep (hbare hlines) (pending_eq hstack line place) (hquiet.deeds line place)
        (due_of_sourceSignal hnext)
  | emit hemitting hlines hframe hstack hnext hs hquiet =>
      refine h.rest hstep (hbare hlines) ?_ (hquiet.deeds line place) (due_of_sourceSignal hnext)
      rw [← emitting_pending hemitting]
      refine pending_cons hstack (resume?_foreign ?_)
      rcases hframe with ⟨n, last, rfl⟩ | rfl <;> rfl
  | loop hemitting hlines hstack hnext hquiet =>
      refine h.rest hstep (hbare hlines) ?_ (hquiet.deeds line place) (by rw [due, hnext])
      rw [pending, hstack]
      rcases hemitting with hemitting | ⟨position, c, -, rfl⟩
      · exact emitting_pending hemitting
      · rfl
  | idle hfocus hcall hclient hlines hstack hnext hquiet =>
      exact h.rest hstep (hbare hlines) (pending_eq hstack line place) (hquiet.deeds line place)
        (due_of_back hnext)
  | @pop b b' f rest hfocus hstack hframe hlines hrest hnext hquiet =>
      refine h.rest hstep (hbare hlines) ?_ (hquiet.deeds line place) (due_of_back hnext)
      rw [pending_cons hstack (resume?_foreign (foreign_of_pop hassembled hstack hframe)), pending,
        hrest]
  | handOver hfocus hstack hlines hsame hnext hquiet =>
      exact h.rest hstep (tap?_eq hlines line place) (pending_eq hsame line place)
        (hquiet.deeds line place) (due_of_outside hnext)

/-- In a move the record of the tap is kept. -/
theorem move {m : Move α ε} (hassembled : S.Assembled P) (h : S.Filed before line place)
    (hmove : Moved P S U m) : U.Filed before line place := by
  have hkeep : U.tap? line place = S.tap? line place → U.pending line place = S.pending line place →
      (∀ t, S.tap? line place = some t → U.due line place = []) → S.due line place = [] →
      U.Filed before line place := by
    intro htap hpending hdue hnone
    refine ⟨fun t ht => ?_, fun hvacant => h.vacant (htap ▸ hvacant), h.ends⟩
    rw [htap] at ht
    have hrecord := h.record t ht
    rw [calls, hnone] at hrecord
    rwa [calls, hdue t ht, hpending]
  -- The client is behind all places.
  have hcontrol : ∀ l h' c, U.focus = .call (.control l P.depth h' c) →
      ∀ t, S.tap? line place = some t → U.due line place = [] := by
    intro l h' c hnext t ht
    obtain ⟨p, hplan⟩ := hassembled.planned (S := S) (by rw [ht]; rfl)
    have hinside : place < P.depth := (List.getElem?_eq_some_iff.mp hplan).1
    have hne : ¬(l = line ∧ P.depth = place) := by omega
    rw [due, hnext]
    simp [hne]
  cases hmove with
  | subscribe hturn hlines hstack hnext =>
      exact hkeep ((tap?_eq hlines line place).trans (addLine_tap? _ line place))
        (pending_eq hstack line place) (fun _ _ => by rw [due, hnext]) (due_of_outside hturn)
  | signal hturn hlines hstack hnext =>
      exact hkeep (tap?_eq hlines line place) (pending_eq hstack line place)
        (fun _ _ => due_of_sourceSignal hnext) (due_of_outside hturn)
  | control hturn hreceived hlines hstack hnext =>
      exact hkeep (tap?_eq hlines line place) (pending_eq hstack line place)
        (hcontrol _ _ _ hnext) (due_of_outside hturn)
  | direct hturn hlines hstack hnext =>
      exact hkeep (tap?_eq hlines line place) (pending_eq hstack line place)
        (hcontrol _ _ _ hnext) (due_of_outside hturn)
  | answer hturn hstack hlines hrest hnext =>
      refine hkeep (tap?_eq hlines line place) ?_ (fun _ _ => due_of_back hnext)
        (due_of_outside hturn)
      rw [pending_cons hstack (resume?_foreign rfl), pending, hrest]

theorem run {history : List (Entry α ε)} (hassembled : S.Assembled P)
    (hpeopled : S.Peopled P (fun _ => .any) []) (h : S.Filed [] line place)
    (hrun : Run P S history U) : U.Filed (happened history) line place := by
  induction hrun with
  | refl => exact h
  | step hrun hstep ih =>
      rw [happened_append, happened_map_event]
      exact ih.step (hassembled.run hrun) (hpeopled.run hassembled hrun) hstep
  | move hrun hmove ih =>
      rw [happened_append, happened_move, List.append_nil]
      exact ih.move (hassembled.run hrun) (move?_moved hmove)

theorem startTap (P : Plan σ α ε) (client : Client) (listener : σ) (context ambient : Context)
    (line place : Nat) :
    (State.startTap P client listener context ambient).Filed [] line place where
  record := by
    intro t ht
    have hstart : t = .start listener context := by
      cases line with
      | zero =>
          cases place with
          | zero => exact (Option.some.inj ht).symm
          | succ place => cases ht
      | succ line => cases ht
    rw [hstart]
    exact .start listener context (.inl rfl)
  vacant := fun _ => rfl
  ends := by simp [Ends]

end Filed

end State

end Wiretap

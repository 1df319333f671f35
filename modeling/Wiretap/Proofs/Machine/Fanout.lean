import Mathlib.Data.List.Induction
import Wiretap.Proofs.Machine.Calling
import Wiretap.Proofs.Machine.Lives
import Wiretap.Proofs.Machine.Relay
import Wiretap.Proofs.Machine.Stage

/-!
# What a source driven by hand sends

On a stage whose source is driven by hand, the source sends what it is told, and nobody else sends
anything. Then every line that it has been joined to gets the handle, and everything that the source
has been told to send since, each of it once; what other lines do with it is nothing to a line. Who
is called may tell the source to send something before it has sent everything, and then a line may
get that first. If nobody does this, all lines get everything in the order in which it was told.
-/

namespace Wiretap

variable {K : Kinds} {σ α ε : Type}

/-- The signal that the move sends to a line. -/
def Move.signal? (line : Nat) : Move α ε → Option (Signal α ε)
  | .signal l s => if l = line then some s else none
  | _ => none

/-- The signals that moves send to a line. -/
def signalsTo (line : Nat) (ms : List (Move α ε)) : List (Signal α ε) :=
  ms.filterMap (Move.signal? line)

@[simp] theorem signalsTo_nil (line : Nat) : signalsTo line ([] : List (Move α ε)) = [] := rfl

@[simp] theorem signalsTo_append (line : Nat) (first second : List (Move α ε)) :
    signalsTo line (first ++ second) = signalsTo line first ++ signalsTo line second :=
  List.filterMap_append

@[simp] theorem signalsTo_cons (line : Nat) (m : Move α ε) (ms : List (Move α ε)) :
    signalsTo line (m :: ms) = (m.signal? line).toList ++ signalsTo line ms :=
  Tap.filterMap_cons_toList _ _ _

theorem Register.signalsTo_note (line : Nat) (r : Register α ε) (m : Move α ε) :
    signalsTo 0 (r.note line m).calls = signalsTo 0 r.calls ++ (m.signal? line).toList := by
  rw [note_calls]
  by_cases hown : r.line? m = some line
  · rw [if_pos hown, signalsTo_append]
    cases m with
    | signal l s =>
        cases hown
        simp [Move.alone, Move.signal?]
    | _ => rfl
  · rw [if_neg hown]
    cases m with
    | signal l s =>
        have hl : l ≠ line := fun heq => hown (congrArg some heq)
        simp [Move.signal?, hl]
    | _ => exact (List.append_nil _).symm

/-- The signals among the calls of a line are those that are sent to it. -/
theorem signalsTo_callsOf (line : Nat) (history : List (Entry α ε)) :
    signalsTo 0 (callsOf line history) = signalsTo line (moves history) := by
  induction history using List.reverseRecOn with
  | nil => rfl
  | append_singleton history entry ih =>
      rw [moves_append, signalsTo_append, ← ih]
      cases entry with
      | event e =>
          have hregister : register line (history ++ [.event e]) =
              (register line history).hear e := register_events line history [e]
          rw [callsOf, hregister]
          cases e <;> exact (List.append_nil _).symm
      | move m =>
          rw [callsOf, register_move, Register.signalsTo_note, moves_move, signalsTo_cons,
            signalsTo_nil, List.append_nil]
          rfl

/-! ## Agendas -/

namespace Cue

/-- The move, if it is one. -/
def move? : Cue α ε → Option (Move α ε)
  | .move m => some m
  | _ => none

/-- Is the source told to send something? -/
def isTell : Cue α ε → Bool
  | .tell _ => true
  | _ => false

/-- Does the source send a signal? -/
def isSignal : Cue α ε → Bool
  | .move (.signal ..) => true
  | _ => false

theorem move?_of_not_signal {cue : Cue α ε} (h : cue.isSignal = false) (line : Nat) :
    cue.move?.bind (Move.signal? line) = none := by
  cases cue with
  | move m => cases m <;> first | rfl | cases h
  | _ => rfl

end Cue

/-- The signals that a line is going to be sent. -/
def promised (line : Nat) (agenda : List (Cue α ε)) : List (Signal α ε) :=
  signalsTo line (agenda.filterMap Cue.move?)

@[simp] theorem promised_append (line : Nat) (first second : List (Cue α ε)) :
    promised line (first ++ second) = promised line first ++ promised line second := by
  rw [promised, List.filterMap_append, signalsTo_append]
  rfl

@[simp] theorem promised_move (line : Nat) (m : Move α ε) (agenda : List (Cue α ε)) :
    promised line (.move m :: agenda) = (m.signal? line).toList ++ promised line agenda :=
  signalsTo_cons line m _

@[simp] theorem promised_note (line : Nat) (agenda : List (Cue α ε)) :
    promised line (.note :: agenda) = promised line agenda := rfl

theorem promised_of_not_signal {agenda : List (Cue α ε)} (h : ∀ cue ∈ agenda, cue.isSignal = false)
    (line : Nat) : promised line agenda = [] := by
  rw [promised, signalsTo, List.filterMap_filterMap]
  exact List.filterMap_eq_nil_iff.mpr fun cue hcue => Cue.move?_of_not_signal (h cue hcue) line

/-- The moves for a telling bring every line that the source has been joined to one signal. -/
theorem promised_telling (t : Telling α ε) (S : State σ α ε) {joined : List Nat}
    (hnodup : joined.Nodup) (line : Nat) :
    promised line ((t.moves S joined).flatMap fun m => [.move m, .note]) =
      if line ∈ joined then [t.signal (S.isConditional line)] else [] := by
  induction joined with
  | nil => rfl
  | cons l joined ih =>
      obtain ⟨hl, hnodup⟩ := List.nodup_cons.mp hnodup
      have hfirst : promised line ((t.moves S (l :: joined)).flatMap fun m => [.move m, .note]) =
          (if l = line then [t.signal (S.isConditional l)] else []) ++
            promised line ((t.moves S joined).flatMap fun m => [.move m, .note]) := by
        by_cases heq : l = line <;> simp [Telling.moves, Move.signal?, heq]
      rw [hfirst, ih hnodup]
      by_cases heq : l = line
      · subst heq
        simp [hl]
      · simp [heq, Ne.symm heq]

/-- The source is told something only when it has sent everything. -/
def Unhurried (agenda : List (Cue α ε)) : Prop :=
  agenda.Pairwise fun cue later => cue.isTell = true → later.isSignal = false

namespace Unhurried

variable {agenda front : List (Cue α ε)} {cue : Cue α ε}

theorem of_not_signal (h : ∀ cue ∈ agenda, cue.isSignal = false) : Unhurried agenda :=
  List.pairwise_of_forall_mem_list fun _ _ later hlater _ => h later hlater

theorem rest (h : Unhurried (cue :: agenda)) : Unhurried agenda := h.of_cons

theorem prepend (h : Unhurried agenda) (hfront : ∀ cue ∈ front, cue.isTell = false) :
    Unhurried (front ++ agenda) := by
  have hnever : ∀ cue ∈ front, ∀ later : Cue α ε, cue.isTell = true → later.isSignal = false :=
    fun cue hcue _ htell => absurd htell (by simp [hfront cue hcue])
  exact List.pairwise_append.mpr ⟨List.pairwise_of_forall_mem_list fun cue hcue _ _ =>
    hnever cue hcue _, h, fun cue hcue _ _ => hnever cue hcue _⟩

/-- When the source is told something, nothing else has been promised. -/
theorem promised_eq_nil {t : Telling α ε} (h : Unhurried (.tell t :: agenda)) (line : Nat) :
    promised line agenda = [] :=
  promised_of_not_signal (fun cue hcue => (List.pairwise_cons.mp h).1 cue hcue rfl) line

end Unhurried

/-- The source greets new lines, and nobody who is called sends signals for it. -/
structure Manner.Obliging (manner : Manner α ε) : Prop where
  source : ∀ past line, manner past (.source line) = (Telling.greeting line).map .move
  others : ∀ past c, c.source? = none → ∀ cue ∈ manner past c, cue.isSignal = false

/-- Nobody who is called tells the source to send something. -/
def Manner.Reticent (manner : Manner α ε) : Prop :=
  ∀ past c, ∀ cue ∈ manner past c, cue.isTell = false

namespace State

variable {P : Plan σ α ε} {S U : State σ α ε} {events : List (Event α ε)} {m : Move α ε}

/-- A source outside is called where the first receiver of a line is joined to it. -/
theorem step?_source {line : Nat} {ambient : Context} (hstep : S.step? P = some (U, events))
    (hcalled : called events = [(.source line, ambient)]) :
    ∃ context, S.focus = .call (.join line 0 context) := by
  have hsome : called events ≠ [] := by simp [hcalled]
  cases hfocus : S.focus with
  | outside b =>
      rw [(step?_eq_none_iff P).mpr ⟨b, hfocus⟩] at hstep
      cases hstep
  | back b => exact absurd (step?_silent_of_back hstep hfocus) hsome
  | call c =>
      have hmake : make P S c = (U, events) :=
        Option.some.inj ((by rw [step?, hfocus] : S.step? P = some (make P S c)).symm.trans hstep)
      obtain ⟨rfl, rfl⟩ := Prod.mk.inj hmake
      cases c with
      | join l position context =>
          cases position with
          | zero =>
              rcases joinSource_rings (P := P) (S := S) l with hkeeps | hrings
              · exact absurd hkeeps.1 hsome
              · have hone : called (joinSource P S l).2 = [(.source line, ambient)] := hcalled
                rw [hrings.called] at hone
                cases hone
                exact ⟨context, rfl⟩
          | succ place => exact absurd (setUpTap_keeps l place context).1 hsome
      | tap l place s => exact absurd (callTap_keeps l place (.signal s)).1 hsome
      | client l s => cases hcalled
      | control l position h c =>
          cases h with
          | empty => exact absurd rfl hsome
          | emission => exact absurd (controlEmission_keeps l c).1 hsome
          | tap place => exact absurd (callTap_keeps l place (.control c)).1 hsome
          | external id => cases hcalled
      | emit l n => exact absurd (emit_keeps l n).1 hsome

/-- A source driven by hand can send a signal whenever the outside has the turn. -/
theorem move?_signal {b : Bool} (hP : P.isDriven = true) (hfocus : S.focus = .outside b)
    (line : Nat) (s : Signal α ε) :
    S.move? P (.signal line s) = some (S.call (P.sourceSignal line s)) := by
  simp only [move?, hfocus, hP, if_true]

end State

namespace Stage

/-- The signals that a line has been sent and is going to be sent. -/
def signals (s : Stage σ α ε) (line : Nat) : List (Signal α ε) :=
  signalsTo line (moves s.past) ++ promised line s.agenda

/-- The signals that a line is to be sent: once the source has been joined to it, the handle, and
everything that the source has been told to send since. -/
def dues (s : Stage σ α ε) (line : Nat) : List (Signal α ε) :=
  if line ∈ s.joined then
    .subscribe (.external 0) ::
      (s.told.filter fun t => line ∈ t.2).map fun t => t.1.signal (s.machine.isConditional line)
  else []

/-- The source is joined to lines that are there, and to each of them once. -/
structure Sound (P : Plan σ α ε) (s : Stage σ α ε) : Prop where
  assembled : s.machine.Assembled P
  nodup : s.joined.Nodup
  made : ∀ line ∈ s.joined, line < s.machine.lines.length
  joining : ∀ line position context, s.machine.focus = .call (.join line position context) →
    line ∉ s.joined
  told : ∀ t ∈ s.told, ∀ line ∈ t.2, line ∈ s.joined

/-- From `s` to `u` the line is promised more, before everything else, and as much more is due. -/
structure Adds (s u : Stage σ α ε) (line : Nat) (more : List (Signal α ε)) : Prop where
  signals : u.signals line = signalsTo line (moves s.past) ++ more ++ promised line s.agenda
  dues : u.dues line = s.dues line ++ more
  /-- Nothing is put before anything else, unless the source is hurried. -/
  inTurn : Unhurried s.agenda → more = [] ∨ promised line s.agenda = []

/-- The source serves its lines from `s` to `u`. -/
structure Serves (P : Plan σ α ε) (s u : Stage σ α ε) : Prop where
  sound : u.Sound P
  adds : ∀ line, ∃ more, s.Adds u line more

variable {P : Plan σ α ε} {manner : Manner α ε} {s u : Stage σ α ε} {U : State σ α ε}
  {events : List (Event α ε)} {m : Move α ε} {agenda : List (Cue α ε)} {line : Nat}
  {more : List (Signal α ε)} {b : Bool}

namespace Adds

/-- The line is promised nothing more. -/
theorem nothing (hsignals : u.signals line = s.signals line) (hdues : u.dues line = s.dues line) :
    s.Adds u line [] where
  signals := by rw [hsignals, List.append_nil, Stage.signals]
  dues := by rw [hdues, List.append_nil]
  inTurn _ := .inl rfl

theorem perm (h : s.Adds u line more) (hs : (s.signals line).Perm (s.dues line)) :
    (u.signals line).Perm (u.dues line) := by
  have hswap : (u.signals line).Perm (s.signals line ++ more) := by
    rw [h.signals, Stage.signals, List.append_assoc, List.append_assoc]
    exact List.perm_append_comm.append_left _
  rw [h.dues]
  exact hswap.trans (hs.append_right more)

theorem eq (h : s.Adds u line more) (hs : s.signals line = s.dues line)
    (hagenda : Unhurried s.agenda) : u.signals line = u.dues line := by
  rw [h.signals, h.dues, ← hs, Stage.signals]
  rcases h.inTurn hagenda with rfl | hnone
  · rw [List.append_nil, List.append_nil]
  · rw [hnone, List.append_nil, List.append_nil]

end Adds

namespace Sound

theorem start (P : Plan σ α ε) (ambient : Context) (agenda : List (Cue α ε)) :
    (Stage.start P ambient agenda).Sound P where
  assembled := .start ambient
  nodup := .nil
  made _ hline := absurd hline List.not_mem_nil
  joining _ _ _ _ := List.not_mem_nil
  told _ ht := absurd ht List.not_mem_nil

/-- The machine steps. -/
theorem step (h : s.Sound P) (hstep : s.machine.step? P = some (U, events)) :
    s.Serves P (s.after U (events.map .event)) := by
  have hstepped := State.step?_stepped hstep
  refine ⟨⟨h.assembled.step hstepped, h.nodup, fun line hline => ?_, ?_, h.told⟩,
    fun line => ⟨[], .nothing (by simp [signals, after]) ?_⟩⟩
  · change line < U.lines.length
    rw [State.step_length hstepped]
    exact h.made line hline
  · intro line position context hfocus
    obtain ⟨_, hbefore, -⟩ := State.step_join hstepped hfocus
    exact h.joining _ _ _ hbefore
  · rw [dues, dues, after, State.step_isConditional hstepped]

/-- Somebody is called who is not the source. -/
theorem hear_other (h : s.Sound P) (hmanner : manner.Obliging) {c : Callback α ε}
    (hc : c.source? = none) : s.Serves P (s.hear manner c) := by
  rw [hear_of_source?_eq_none hc]
  refine ⟨⟨h.assembled, h.nodup, h.made, h.joining, h.told⟩, fun line => ⟨[], .nothing ?_ rfl⟩⟩
  simp only [signals, promised_append]
  rw [promised_of_not_signal (hmanner.others s.past c hc), List.nil_append]

/-- The source is joined to a new line, and greets it. -/
theorem hear_source (h : s.Sound P) (hmanner : manner.Obliging) (hnew : line ∉ s.joined)
    (hmade : line < s.machine.lines.length) (hfocus : s.machine.focus = .outside b)
    (hnone : s.signals line = []) : s.Serves P (s.hear manner (.source line)) := by
  have hheard : s.hear manner (.source line) =
      { s with joined := s.joined ++ [line]
               agenda := (Telling.greeting line).map .move ++ s.agenda } := by
    rw [hear, hmanner.source]
    rfl
  have hpromised : ∀ l, promised l ((Telling.greeting line).map .move ++ s.agenda) =
      (if line = l then [.subscribe (.external 0)] else []) ++ promised l s.agenda := by
    intro l
    by_cases hl : line = l <;> simp [Telling.greeting, Move.signal?, hl]
  rw [hheard]
  refine ⟨⟨h.assembled, ?_, ?_, ?_, ?_⟩, fun l => ?_⟩
  · exact List.nodup_append.mpr ⟨h.nodup, List.nodup_cons.mpr ⟨List.not_mem_nil, .nil⟩,
      fun l hl l' hl' heq => hnew (List.mem_singleton.mp hl' ▸ heq ▸ hl)⟩
  · intro l hl
    rcases List.mem_append.mp hl with hl | hl
    · exact h.made l hl
    · exact List.mem_singleton.mp hl ▸ hmade
  · intro l position context hcall
    rw [hfocus] at hcall
    cases hcall
  · exact fun t ht l hl => List.mem_append_left _ (h.told t ht l hl)
  · by_cases hl : line = l
    · -- Until now nothing was promised to the line, and nothing was due.
      subst hl
      obtain ⟨hpast, hagenda⟩ := List.append_eq_nil_iff.mp hnone
      have htold : s.told.filter (fun t => line ∈ t.2) = [] :=
        List.filter_eq_nil_iff.mpr fun t ht hmem =>
          hnew (h.told t ht line (of_decide_eq_true hmem))
      refine ⟨[.subscribe (.external 0)], ?_, ?_, fun _ => .inr hagenda⟩
      · rw [signals, hpromised, if_pos rfl, List.append_assoc]
      · simp [dues, htold, hnew]
    · refine ⟨[], .nothing ?_ ?_⟩
      · rw [signals, hpromised, if_neg hl, List.nil_append, signals]
      · have hjoined : l ∈ s.joined ++ [line] ↔ l ∈ s.joined := by simp [Ne.symm hl]
        simp only [dues, hjoined]

/-- The outside makes a move. -/
theorem move (h : s.Sound P) (hP : P.isDriven = true) (hfocus : s.machine.focus = .outside b)
    (hagenda : s.agenda = .move m :: agenda) :
    s.Serves P (({ s with agenda } : Stage σ α ε).perform P (.move m)) := by
  unfold perform
  dsimp only
  split
  next U hmove =>
    have hmoved := State.move?_moved hmove
    obtain ⟨hlines, hfresh⟩ := State.move_lines hmoved
    refine ⟨⟨h.assembled.move hmoved, h.nodup,
      fun line hline => Nat.lt_of_lt_of_le (h.made line hline) hlines,
      fun line position context hcall hline => ?_, h.told⟩, fun line => ⟨[], .nothing ?_ ?_⟩⟩
    · exact absurd (h.made line hline) (Nat.not_lt.mpr (hfresh _ _ _ hcall))
    · simp [signals, after, hagenda]
    · rw [dues, dues]
      by_cases hline : line ∈ s.joined
      · have hconditional := (State.move_keeps hmoved (h.made line hline) 0).2.2
        simp only [after, hline, hconditional]
      · simp only [after, hline, if_false]
  next hmove =>
    -- A move that is not possible is not a signal.
    have hnone : ∀ line, m.signal? line = none := by
      intro line
      cases m with
      | signal l sig =>
          have hmove : s.machine.move? P (.signal l sig) = none := hmove
          rw [State.move?_signal hP hfocus] at hmove
          cases hmove
      | _ => rfl
    refine ⟨⟨h.assembled, h.nodup, h.made, h.joining, h.told⟩,
      fun line => ⟨[], .nothing ?_ rfl⟩⟩
    rw [signals, signals, hagenda, promised_move, hnone, Option.toList_none, List.nil_append]

/-- The source is told to send something. -/
theorem tell (h : s.Sound P) {t : Telling α ε} (hagenda : s.agenda = .tell t :: agenda) :
    s.Serves P (({ s with agenda } : Stage σ α ε).perform P (.tell t)) := by
  have hrest : ∀ line, promised line s.agenda = promised line agenda := by
    intro line
    rw [hagenda]
    rfl
  refine ⟨⟨h.assembled, h.nodup, h.made, h.joining, ?_⟩, fun line =>
    ⟨if line ∈ s.joined then [t.signal (s.machine.isConditional line)] else [], ?_, ?_, ?_⟩⟩
  · intro t' ht' line hline
    rcases List.mem_append.mp ht' with ht' | ht'
    · exact h.told t' ht' line hline
    · rw [List.mem_singleton.mp ht'] at hline
      exact hline
  · simp only [signals, perform, promised_append, promised_telling t s.machine h.nodup, hrest,
      List.append_assoc]
  · by_cases hline : line ∈ s.joined <;> simp [dues, perform, hline]
  · intro hunhurried
    rw [hagenda] at hunhurried
    rw [hrest]
    exact .inr (hunhurried.promised_eq_nil line)

/-- What a call returned is noted. -/
theorem note (h : s.Sound P) (hfocus : s.machine.focus = .outside b)
    (hagenda : s.agenda = .note :: agenda) :
    s.Serves P (({ s with agenda } : Stage σ α ε).perform P .note) := by
  have hnoted : ({ s with agenda } : Stage σ α ε).perform P .note =
      { s with agenda, answers := s.answers ++ [b] } := by simp only [perform, hfocus]
  rw [hnoted]
  refine ⟨⟨h.assembled, h.nodup, h.made, h.joining, h.told⟩, fun line => ⟨[], .nothing ?_ rfl⟩⟩
  rw [signals, signals, hagenda, promised_note]

/-- What the machine has done before does not count. -/
theorem after_step (h : s.Sound P) (hstep : s.machine.step? P = some (U, events))
    (hlater : (s.after U (events.map .event)).Sound P →
      (s.after U (events.map .event)).Serves P u) : s.Serves P u := by
  have hserves := hlater (h.step hstep).sound
  refine ⟨hserves.sound, fun line => ?_⟩
  obtain ⟨more, hadds⟩ := hserves.adds line
  refine ⟨more, by simpa [after] using hadds.signals, ?_, hadds.inTurn⟩
  rw [hadds.dues, dues, dues, after, State.step_isConditional (State.step?_stepped hstep)]

/-- Whatever happens on a stage, the source serves its lines. -/
theorem next (h : s.Sound P) (hserved : ∀ line, (s.signals line).Perm (s.dues line))
    (hP : P.isDriven = true) (hmanner : manner.Obliging) (hnext : s.next? P manner = some u) :
    s.Serves P u := by
  cases hstep : s.machine.step? P with
  | some outcome =>
      obtain ⟨U, events⟩ := outcome
      rw [next?_of_step hstep, Option.some.injEq] at hnext
      subst hnext
      rcases State.step?_rings hstep with ⟨hsilent, -⟩ | ⟨c, hrings, -⟩
      · have hsilent : called events = [] := hsilent
        rw [hsilent]
        exact h.step hstep
      · have hone : called events = [(c, s.machine.ambient)] := hrings.called
        rw [hone]
        refine h.after_step hstep fun hafter => ?_
        cases c with
        | source line =>
            obtain ⟨context, hfocus⟩ := State.step?_source hstep hone
            have hnew := h.joining _ _ _ hfocus
            have hmade : line < U.lines.length := by
              rw [State.step_length (State.step?_stepped hstep)]
              exact (h.assembled.joining _ _ _ hfocus).started
            have hnone : s.signals line = [] := by
              have hserved := hserved line
              rw [dues, if_neg hnew] at hserved
              exact hserved.eq_nil
            exact hafter.hear_source hmanner hnew hmade hrings.focus
              (by simpa [signals, after] using hnone)
        | client line sig => exact hafter.hear_other hmanner rfl
        | handle id c => exact hafter.hear_other hmanner rfl
  | none =>
      obtain ⟨b, hfocus⟩ := (State.step?_eq_none_iff P).mp hstep
      cases hagenda : s.agenda with
      | nil =>
          rw [next?_eq_none hfocus hagenda] at hnext
          cases hnext
      | cons cue agenda =>
          rw [next?_of_cue hfocus hagenda, Option.some.injEq] at hnext
          subst hnext
          cases cue with
          | move m => exact h.move hP hfocus hagenda
          | tell t => exact h.tell hagenda
          | note => exact h.note hfocus hagenda

end Sound

theorem unhurried_hear (hmanner : manner.Reticent) (calls : List (Callback α ε × Context))
    (h : Unhurried s.agenda) :
    Unhurried (calls.foldl (fun s c => s.hear manner c.1) s).agenda := by
  induction calls generalizing s with
  | nil => exact h
  | cons c calls ih => exact ih (h.prepend (hmanner s.past c.1))

/-- If nobody who is called tells the source to send something, the source is never hurried. -/
theorem unhurried_next (hmanner : manner.Reticent) (h : Unhurried s.agenda)
    (hnext : s.next? P manner = some u) : Unhurried u.agenda := by
  unfold next? at hnext
  split at hnext
  · cases hnext
    exact unhurried_hear hmanner _ h
  · split at hnext
    · cases hnext
    next cue agenda hagenda =>
      rw [hagenda] at h
      cases hnext
      cases cue with
      | move m =>
          unfold perform
          dsimp only
          split <;> exact h.rest
      | tell t =>
          refine h.rest.prepend fun cue hcue => ?_
          obtain ⟨m, -, hcue⟩ := List.mem_flatMap.mp hcue
          rcases List.mem_pair.mp hcue with rfl | rfl <;> rfl
      | note =>
          unfold perform
          dsimp only
          split <;> exact h.rest

variable {ambient : Context}

/-- Every line has been sent and promised what it is due. -/
theorem Leads.served (hP : P.isDriven = true) (hmanner : manner.Obliging)
    (hagenda : ∀ cue ∈ agenda, cue.isSignal = false)
    (h : (Stage.start P ambient agenda).Leads P manner s) :
    s.Sound P ∧ ∀ line, (s.signals line).Perm (s.dues line) := by
  induction h with
  | refl =>
      exact ⟨.start P ambient agenda, fun line => .of_eq (promised_of_not_signal hagenda line)⟩
  | tail _ hnext ih =>
      have hserves := ih.1.next ih.2 hP hmanner hnext
      refine ⟨hserves.sound, fun line => ?_⟩
      obtain ⟨more, hadds⟩ := hserves.adds line
      exact hadds.perm (ih.2 line)

/-- If nobody who is called tells the source to send something, every line has been sent and
promised what it is due in that order. -/
theorem Leads.served_inTurn (hP : P.isDriven = true) (hmanner : manner.Obliging)
    (hreticent : manner.Reticent) (hagenda : ∀ cue ∈ agenda, cue.isSignal = false)
    (h : (Stage.start P ambient agenda).Leads P manner s) :
    Unhurried s.agenda ∧ ∀ line, s.signals line = s.dues line := by
  induction h with
  | refl => exact ⟨.of_not_signal hagenda, promised_of_not_signal hagenda⟩
  | tail hleads hnext ih =>
      obtain ⟨hsound, hserved⟩ := Leads.served hP hmanner hagenda hleads
      refine ⟨unhurried_next hreticent ih.1 hnext, fun line => ?_⟩
      obtain ⟨more, hadds⟩ := (hsound.next hserved hP hmanner hnext).adds line
      exact hadds.eq (ih.2 line) ih.1

end Stage

end Wiretap

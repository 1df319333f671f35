import Wiretap.Proofs.Machine.Joined
import Wiretap.Proofs.Machine.Visit

/-!
# The contexts along a line

A client carries a context of its own. Each tap of its line carries the context of its receiver,
augmented once by the one listener that was created for it, and this is the context with which it is
joined to what is before it.
-/

namespace Wiretap

variable {K : Kinds} {σ α ε : Type}

/-- The number with which a listener was to be created for the tap at a place, the ambient context
and the context of the receiver, if the event is that. -/
def Event.birth? (line place : Nat) : Event α ε → Option (Nat × Context × Context)
  | .created l p nth ambient context _ =>
    if l = line ∧ p = place then some (nth, ambient, context) else none
  | _ => none

/-- The numbers and contexts with which listeners were to be created for the tap at a place. -/
def births (line place : Nat) (events : List (Event α ε)) : List (Nat × Context × Context) :=
  events.filterMap (Event.birth? line place)

/-- The client of a line. -/
def State.client? (S : State σ α ε) (line : Nat) : Option Client :=
  (S.lines[line]?).map Line.client

/-- The receiver at a position of a line carries this context. -/
inductive State.Carries (P : Plan σ α ε) (S : State σ α ε) (events : List (Event α ε))
    (line : Nat) : Nat → Context → Prop
  /-- The client carries its own. -/
  | client {client : Client} (hclient : S.client? line = some client) :
    Carries P S events line P.depth client.context
  /-- A tap carries that of its receiver, augmented by the only listener created for it, under the
  ambient context under which that was created. -/
  | tap {place nth : Nat} {ambient context augmented : Context} {p : TapPlan σ α ε} {listener : σ}
    (hplan : P.taps[place]? = some p) (hreceiver : Carries P S events line (place + 1) context)
    (hbirths : births line place events = [(nth, ambient, context)])
    (hcreate : p.create ambient nth context = .ok listener)
    (haugments : Tap.Augments (p.listener ambient) listener context augmented) :
    Carries P S events line place augmented

section

variable {line place : Nat}

@[simp] theorem births_append (first second : List (Event α ε)) :
    births line place (first ++ second) = births line place first ++ births line place second :=
  List.filterMap_append

@[simp] theorem births_cons (e : Event α ε) (events : List (Event α ε)) :
    births line place (e :: events) = (e.birth? line place).toList ++ births line place events :=
  Tap.filterMap_cons_toList _ _ _

@[simp] theorem births_nil : births line place ([] : List (Event α ε)) = [] := rfl

@[simp] theorem births_acted (l p : Nat) (ambient : Context) (acts : List (Tap.Act α ε)) :
    births line place (acts.map (Event.acted l p ambient)) = [] := by
  induction acts with
  | nil => rfl
  | cons act acts ih => simpa [Event.birth?] using ih

theorem Unassembling.births {events : List (Event α ε)} (h : Unassembling events) :
    births line place events = [] := by
  refine List.filterMap_eq_nil_iff.mpr fun e he => ?_
  have hnone := h e he
  cases e with
  | created => cases hnone
  | _ => rfl

/-- A listener that is created can be seen at the place of its tap. -/
theorem births_of_deeds {events : List (Event α ε)} (h : deeds line place events = []) :
    births line place events = [] := by
  refine List.filterMap_eq_nil_iff.mpr fun e he => ?_
  have hdeed := List.filterMap_eq_nil_iff.mp h e he
  cases e with
  | created l p nth ambient context failure =>
      simp only [Event.deed?, Event.birth?] at hdeed ⊢
      split at hdeed
      · cases hdeed
      next hother => rw [if_neg hother]
  | _ => rfl

end

namespace State

variable {P : Plan σ α ε} {S U : State σ α ε} {line place position : Nat}
  {events before : List (Event α ε)}

/-- A receiver carries one context. -/
theorem Carries.unique {first second : Context} (hfirst : Carries P S events line position first)
    (hsecond : Carries P S events line position second) : first = second := by
  have hinside : ∀ {p : TapPlan σ α ε}, P.taps[P.depth]? ≠ some p := by
    intro p hplan
    exact Nat.lt_irrefl _ (List.getElem?_eq_some_iff.mp hplan).1
  generalize hposition : position = q at hsecond
  induction hfirst generalizing second q with
  | client hclient =>
      cases hsecond with
      | client hclient' =>
          rw [hclient, Option.some.injEq] at hclient'
          rw [hclient']
      | tap hplan => exact absurd (hposition ▸ hplan) hinside
  | tap hplan hreceiver hbirths hcreate haugments ih =>
      cases hsecond with
      | client hclient' => exact absurd (hposition ▸ hplan) hinside
      | tap hplan' hreceiver' hbirths' hcreate' haugments' =>
          subst hposition
          rw [hplan, Option.some.injEq] at hplan'
          subst hplan'
          rw [hbirths, List.cons.injEq, Prod.mk.injEq, Prod.mk.injEq] at hbirths'
          obtain ⟨⟨rfl, rfl, rfl⟩, -⟩ := hbirths'
          rw [hcreate, Except.ok.injEq] at hcreate'
          subst hcreate'
          exact haugments.unique _ haugments'

/-- The client stays, and so do the births that there have been. -/
theorem Carries.keep {context : Context} (h : Carries P S before line position context)
    (hclient : ∀ client, S.client? line = some client → U.client? line = some client)
    (hbirths : ∀ place, births line place before ≠ [] → births line place events = []) :
    Carries P U (before ++ events) line position context := by
  induction h with
  | client hold => exact .client (hclient _ hold)
  | @tap place _ _ _ _ _ _ hplan hreceiver hborn hcreate haugments ih =>
      refine .tap hplan ih ?_ hcreate haugments
      rw [births_append, hborn, hbirths place (by simp [hborn])]
      rfl

theorem Carries.still {context : Context} (h : Carries P S before line position context)
    (hclient : ∀ client, S.client? line = some client → U.client? line = some client) :
    Carries P U before line position context := by
  have hkept := h.keep hclient fun place _ => births_nil
  rwa [List.append_nil] at hkept

/-! ## Clients -/

theorem modify_client? {f : Line σ α → Line σ α} {l : Nat} (hf : ∀ l, (f l).client = l.client)
    (hlines : U.lines = S.lines.modify l f) (line : Nat) : U.client? line = S.client? line := by
  rw [client?, client?, hlines, List.getElem?_modify]
  cases S.lines[line]? with
  | none => rfl
  | some found => by_cases hline : l = line <;> simp [hline, hf]

theorem bare_client? (hlines : U.lines.map Line.bare = S.lines.map Line.bare) (line : Nat) :
    U.client? line = S.client? line := by
  have hbare := congrArg (Option.map Line.client) (getElem?_bare hlines line)
  simpa [client?, Option.map_map, Function.comp_def, Line.bare] using hbare

theorem step_client? (hstep : Stepped P S U events) (line : Nat) :
    U.client? line = S.client? line := by
  have hset : ∀ {l p : Nat} {t : Tap σ}, U.lines = (S.setTap l p t).lines →
      U.client? line = S.client? line := fun hlines =>
    modify_client? (f := (·.setTap _ _)) (fun _ => rfl) hlines line
  have hsame : U.lines = S.lines → U.client? line = S.client? line := fun hlines => by
    rw [client?, client?, hlines]
  cases hstep with
  | serve hfocus hinput hplan htap hturned => exact hset hturned.lines
  | resume hfocus hstack hplan htap hturned => exact hset hturned.lines
  | setUp hfocus hplan hlines => exact hset hlines
  | @hear l s hfocus hlines =>
      exact modify_client? (f := (·.receive s)) (fun l => by cases s <;> rfl) hlines line
  | refuse hfocus hplan hlines => exact hsame hlines
  | explain hfocus hstack hlines => exact hsame hlines
  | callOut hfocus hcall hlines => exact hsame hlines
  | endStream hfocus hlines => exact hsame hlines
  | ended hfocus hstack hlines => exact hsame hlines
  | handOver hfocus hstack hlines => exact hsame hlines
  | startEmission hfocus hlines => exact bare_client? hlines line
  | emit hemitting hlines => exact bare_client? hlines line
  | loop hemitting hlines => exact bare_client? hlines line
  | idle hfocus hcall hclient hlines => exact bare_client? hlines line
  | pop hfocus hstack hframe hlines => exact bare_client? hlines line

theorem move_client? {m : Move α ε} (hmove : Moved P S U m) {client : Client}
    (h : S.client? line = some client) : U.client? line = some client := by
  cases hmove with
  | subscribe hturn hlines hstack =>
      obtain ⟨l, hl, -⟩ := Option.map_eq_some_iff.mp h
      rw [client?, hlines, addLine]
      dsimp only
      rw [List.getElem?_append_left (List.getElem?_eq_some_iff.mp hl).1]
      exact h
  | signal hturn hlines => rwa [client?, hlines]
  | control hturn hreceived hlines => rwa [client?, hlines]
  | direct hturn hlines => rwa [client?, hlines]
  | answer hturn hstack hlines => rwa [client?, hlines]

/-! ## Joining -/

theorem step?_join_tap (hassembled : S.Assembled P) {context : Context}
    (hstep : S.step? P = some (U, events))
    (hfocus : S.focus = .call (.join line (place + 1) context)) :
    ∃ nth later, events = .joined line (place + 1) context :: later ∧
      SettingUp P S line place context nth U later := by
  have hinside := (hassembled.joining _ _ _ hfocus).inside
  simp only [step?, hfocus, make, join, Option.some.injEq, Prod.mk.injEq] at hstep
  obtain ⟨rfl, rfl⟩ := hstep
  obtain ⟨nth, hsetting⟩ :=
    setUpTap_settingUp (S := S) (List.getElem?_eq_getElem hinside) line context
  exact ⟨nth, _, rfl, hsetting⟩

theorem SettingUp.births {context : Context} {nth : Nat}
    (h : SettingUp P S line place context nth U events) (l p : Nat) :
    births l p events = if line = l ∧ place = p then [(nth, S.ambient, context)] else [] := by
  cases h with
  | refused failure acts hlines hstack hambient hnext hevents =>
      rw [hevents]
      by_cases hhere : line = l ∧ place = p <;> simp [Event.birth?, hhere]
  | done hplan hcreate hsetUp hlines hstack hambient hnext hevents =>
      rw [hevents]
      by_cases hhere : line = l ∧ place = p <;> simp [Event.birth?, hhere]

theorem SettingUp.joined_not_mem {context : Context} {nth : Nat}
    (h : SettingUp P S line place context nth U events) (l q : Nat) (c : Context) :
    .joined l q c ∉ events := by
  cases h with
  | refused failure acts hlines hstack hambient hnext hevents =>
      rw [hevents]
      simp
  | done hplan hcreate hsetUp hlines hstack hambient hnext hevents =>
      rw [hevents]
      simp

/-- Every receiver is joined with the context that it carries, and every tap keeps it. -/
structure Bears (P : Plan σ α ε) (S : State σ α ε) (events : List (Event α ε)) : Prop where
  taps : ∀ line place t, S.tap? line place = some t → S.Carries P events line place t.context
  joined : ∀ line position context, .joined line position context ∈ events →
    S.Carries P events line position context
  next : ∀ line position context, S.focus = .call (.join line position context) →
    S.Carries P events line position context

namespace Bears

/-- A step that is not the set-up of a tap. -/
theorem keep (h : S.Bears P before) (hassembled : S.Assembled P) (hstepped : Stepped P S U events)
    (hjoin : ∀ line place context, S.focus ≠ .call (.join line (place + 1) context))
    (hbirths : ∀ line place, births line place events = [])
    (hjoined : ∀ line position context, .joined line position context ∈ events →
      S.focus = .call (.join line position context)) : U.Bears P (before ++ events) := by
  have hkeep : ∀ {line position : Nat} {context : Context},
      S.Carries P before line position context →
      U.Carries P (before ++ events) line position context := by
    intro line position context hcarries
    exact hcarries.keep (fun client hclient => (step_client? hstepped line).trans hclient)
      fun place _ => hbirths line place
  constructor
  · intro line place u hnow
    rcases step_progress hassembled hstepped line place with
      ⟨hsame, -, -⟩ | ⟨-, hthen, -, -⟩ | ⟨hfocus, -, -, -, -⟩ | ⟨hfocus, -, -, -, -⟩
    · exact hkeep (h.taps line place u (hsame.symm.trans hnow))
    · obtain ⟨u', hnow', hcontext⟩ := step_context hassembled hstepped hthen
      rw [hnow, Option.some.injEq] at hnow'
      rw [hnow', hcontext]
      exact hkeep (h.taps line place _ hthen)
    · exact absurd hfocus (hjoin _ _ _)
    · exact absurd hfocus (hjoin _ _ _)
  · intro line position context hmem
    rcases List.mem_append.mp hmem with hmem | hmem
    · exact hkeep (h.joined line position context hmem)
    · exact hkeep (h.next line position context (hjoined line position context hmem))
  · intro line position context hnow
    obtain ⟨context', hfocus, -⟩ := step_join hstepped hnow
    exact absurd hfocus (hjoin _ _ _)

/-- A tap is set up, or is not, where no listener has been created so far. -/
theorem setUp (h : S.Bears P before) (hassembled : S.Assembled P)
    (hstepped : Stepped P S U events) {context : Context} {nth : Nat} {later : List (Event α ε)}
    (hfocus : S.focus = .call (.join line (place + 1) context))
    (hevents : events = .joined line (place + 1) context :: later)
    (hvacant : births line place before = [])
    (hsetting : SettingUp P S line place context nth U later) : U.Bears P (before ++ events) := by
  have hbirths : ∀ l p, births l p events =
      if line = l ∧ place = p then [(nth, S.ambient, context)] else [] := by
    intro l p
    rw [hevents, births_cons, hsetting.births]
    rfl
  have hkeep : ∀ {l q : Nat} {c : Context}, S.Carries P before l q c →
      U.Carries P (before ++ events) l q c := by
    intro l q c hcarries
    refine hcarries.keep (fun client hclient => (step_client? hstepped l).trans hclient)
      fun p hborn => ?_
    rw [hbirths, if_neg]
    rintro ⟨rfl, rfl⟩
    exact hborn hvacant
  have hreceiver := h.next _ _ _ hfocus
  have hjoined : ∀ l q c, .joined l q c ∈ before ++ events →
      U.Carries P (before ++ events) l q c := by
    intro l q c hmem
    rcases List.mem_append.mp hmem with hmem | hmem
    · exact hkeep (h.joined l q c hmem)
    · rw [hevents] at hmem
      rcases List.mem_cons.mp hmem with heq | hmem
      · cases heq
        exact hkeep hreceiver
      · exact absurd hmem (hsetting.joined_not_mem _ _ _)
  cases hsetting with
  | refused failure acts hlines hstack hambient hnext hlater =>
      refine ⟨fun l p t htap => ?_, hjoined, fun l q c hnow => ?_⟩
      · exact hkeep (h.taps l p t ((tap?_eq hlines l p).symm.trans htap))
      · exact absurd (hnext.symm.trans hnow) (Assembled.signal_ne_join _ _ _ _ _ _)
  | @done p listener t hplan hcreate hsetUp hlines hstack hambient hnext hlater =>
      have hborn : U.Carries P (before ++ events) line place t.context := by
        refine .tap hplan (hkeep hreceiver) ?_ hcreate (Tap.setUp_augments _ hsetUp)
        rw [births_append, hvacant, hbirths, if_pos ⟨rfl, rfl⟩]
        rfl
      refine ⟨fun l q u htap => ?_, hjoined, fun l q c hnow => ?_⟩
      · rw [tap?_eq hlines] at htap
        by_cases hhere : l = line ∧ q = place
        · obtain ⟨rfl, rfl⟩ := hhere
          have hjoining := hassembled.joining _ _ _ hfocus
          rw [setTap_tap?_self (hassembled.hasPlace hjoining.started hjoining.inside)] at htap
          cases htap
          exact hborn
        · rw [setTap_tap?_other hhere] at htap
          exact hkeep (h.taps l q u htap)
      · rw [hnext] at hnow
        cases hnow
        exact hborn

theorem step (h : S.Bears P before) (hassembled : S.Assembled P)
    (hvacant : ∀ line place context, S.focus = .call (.join line (place + 1) context) →
      deeds line place before = [])
    (hstep : S.step? P = some (U, events)) : U.Bears P (before ++ events) := by
  have hstepped := step?_stepped hstep
  by_cases hjoin : ∃ line position context, S.focus = .call (.join line position context)
  · obtain ⟨line, position, context, hfocus⟩ := hjoin
    cases position with
    | zero =>
        obtain ⟨later, hevents, hlater⟩ := step?_join_source hstep hfocus
        refine h.keep hassembled hstepped (by simp [hfocus]) (fun l p => ?_) fun l q c hmem => ?_
        · rw [hevents, births_cons, hlater.births]
          rfl
        · rw [hevents] at hmem
          rcases List.mem_cons.mp hmem with heq | hmem
          · cases heq
            exact hfocus
          · cases hlater _ hmem
    | succ place =>
        obtain ⟨nth, later, hevents, hsetting⟩ := step?_join_tap hassembled hstep hfocus
        exact h.setUp hassembled hstepped hfocus hevents
          (births_of_deeds (hvacant _ _ _ hfocus)) hsetting
  · have hevents := step?_unassembling hstep fun l q c hfocus => hjoin ⟨l, q, c, hfocus⟩
    refine h.keep hassembled hstepped (fun l p c hfocus => hjoin ⟨l, _, c, hfocus⟩)
      (fun l p => hevents.births) fun l q c hmem => ?_
    cases hevents _ hmem

theorem move {m : Move α ε} (h : S.Bears P before) (hmove : Moved P S U m) :
    U.Bears P before := by
  have hkeep : ∀ {l q : Nat} {c : Context},
      S.Carries P before l q c → U.Carries P before l q c := by
    exact fun hcarries => hcarries.still fun client => move_client? hmove
  refine ⟨fun l p t htap => hkeep (h.taps l p t ((move_tap? hmove l p).symm.trans htap)),
    fun l q c hmem => hkeep (h.joined l q c hmem), fun l q c hnow => ?_⟩
  cases hmove with
  | @subscribe client b hturn hlines hstack hnext =>
      rw [hnext] at hnow
      cases hnow
      refine .client ?_
      rw [client?, hlines]
      simp [addLine]
  | signal hturn hlines hstack hnext =>
      exact absurd (hnext.symm.trans hnow) (Assembled.sourceSignal_ne_join _ _ _ _ _)
  | control hturn hreceived hlines hstack hnext => simp [hnext] at hnow
  | direct hturn hlines hstack hnext => simp [hnext] at hnow
  | answer hturn hstack hlines hrest hnext => simp [hnext] at hnow

/-- The ambient context does not matter. -/
theorem change (h : S.Bears P before) (ambient : Context) :
    State.Bears P { S with ambient } before := by
  have hkeep : ∀ {l q : Nat} {c : Context}, S.Carries P before l q c →
      State.Carries P { S with ambient } before l q c := by
    exact fun hcarries => hcarries.still fun client hclient => hclient
  exact ⟨fun l p t htap => hkeep (h.taps l p t htap), fun l q c hmem => hkeep (h.joined l q c hmem),
    fun l q c hnow => hkeep (h.next l q c hnow)⟩

theorem start (ambient : Context) : (State.start P ambient).Bears P [] := by
  constructor <;> simp [State.start, tap?]

end Bears

end State

end Wiretap

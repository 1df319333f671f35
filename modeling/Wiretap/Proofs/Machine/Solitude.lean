import Wiretap.Proofs.Machine.Calling
import Wiretap.Proofs.Machine.Lives
import Wiretap.Proofs.Machine.Twins

/-!
# A line on its own

A run with many lines is followed, for one line of it, by a run of that line alone. What the machine
does for the line it does there as well, and while it works for another line nothing happens there.
Work for a line begins where the outside has the turn and ends there, so on the stack the frames of
one piece of work lie together, with the callback on top from inside of which other work was begun.
When a piece of work is done, its taps have released their scopes, and the ambient context is again
that of the callback. So whoever makes a call from there, the line does not notice the work for
other lines that has been done before.
-/

namespace Wiretap

variable {K : Kinds} {σ α ε ν : Type}

/-! ## What twins tell -/

section

variable {view : Context → ν} {l l' : Nat} {events events' : List (Event α ε)}

theorem Event.Twin.deed?_eq {e e' : Event α ε} (h : e.Twin view l l' e') (place : Nat) :
    e.deed? l place = e'.deed? l' place := by
  cases h <;> simp [Event.deed?]

theorem Event.Twin.deed?_other {e e' : Event α ε} (h : e.Twin view l l' e') {k : Nat} (hk : l ≠ k)
    (place : Nat) : e.deed? k place = none := by
  cases h <;> simp [Event.deed?, hk]

theorem Event.Twin.heard? {e e' : Event α ε} (h : e.Twin view l l' e') (k k' : Nat) :
    e.heard? k = none ∧ e'.heard? k' = none := by
  cases h <;> exact ⟨rfl, rfl⟩

theorem Event.Twin.ambient?_eq {e e' : Event α ε} (h : e.Twin view l l' e') :
    (e.ambient? l).map view = (e'.ambient? l').map view := by
  cases h <;> simp [Event.ambient?, *]

theorem Event.Twin.ambient?_other {e e' : Event α ε} (h : e.Twin view l l' e') {k : Nat}
    (hk : l ≠ k) : e.ambient? k = none := by
  cases h <;> simp [Event.ambient?, hk]

theorem heardBy_twins (h : List.Forall₂ (Event.Twin view l l') events events') (k k' : Nat) :
    heardBy k events = [] ∧ heardBy k' events' = [] := by
  induction h with
  | nil => exact ⟨rfl, rfl⟩
  | cons he _ ih =>
      obtain ⟨hheard, hheard'⟩ := he.heard? k k'
      exact ⟨by simp [hheard, ih.1], by simp [hheard', ih.2]⟩

theorem map_toList {β γ : Type} (f : β → γ) (x : Option β) :
    x.toList.map f = (x.map f).toList := by
  cases x <;> rfl

/-- Twins look alike. -/
theorem echoes_of_twins (h : List.Forall₂ (Event.Twin view l l') events events') :
    Echoes view l l' events events' := by
  refine ⟨fun place => ?_, (heardBy_twins h l l').1.trans (heardBy_twins h l l').2.symm, ?_⟩
  · induction h with
    | nil => rfl
    | cons he _ ih => rw [deeds_cons, deeds_cons, he.deed?_eq, ih]
  · induction h with
    | nil => rfl
    | cons he _ ih =>
        rw [ambients_cons, ambients_cons, List.map_append, List.map_append, map_toList, map_toList,
          he.ambient?_eq, ih]

/-- What happens on one line is nothing to another. -/
theorem echoes_nil_of_twins (h : List.Forall₂ (Event.Twin view l l') events events') {k : Nat}
    (hk : l ≠ k) (k' : Nat) : Echoes view k k' events ([] : List (Event α ε)) := by
  refine ⟨fun place => ?_, (heardBy_twins h k k').1, ?_⟩
  · induction h with
    | nil => rfl
    | cons he _ ih =>
        rw [deeds_cons, he.deed?_other hk, ih]
        rfl
  · induction h with
    | nil => rfl
    | cons he _ ih =>
        rw [ambients_cons, he.ambient?_other hk]
        exact ih

theorem Callback.Twin.echoes {c c' : Callback α ε} (h : c.Twin l l' c') {ambient ambient' : Context}
    (hview : view ambient = view ambient') :
    Echoes view l l' [.called c ambient] [.called c' ambient'] := by
  cases h <;> exact ⟨fun _ => rfl, by simp [Event.heard?],
    by simp [Event.ambient?, Callback.line?, hview, ambients]⟩

theorem Callback.Twin.echoes_nil {c c' : Callback α ε} (h : c.Twin l l' c') (ambient : Context)
    {k : Nat} (hk : l ≠ k) (k' : Nat) :
    Echoes view k k' [.called c ambient] ([] : List (Event α ε)) := by
  cases h <;> exact ⟨fun _ => rfl, by simp [Event.heard?, hk],
    by simp [Event.ambient?, Callback.line?, hk, ambients]⟩

theorem Callback.Twin.answer {c c' : Callback α ε} (h : c.Twin l l' c') (b : Bool) :
    c.answer b = c'.answer b := by
  cases h <;> rfl

theorem Event.Twin.hear {e e' : Event α ε} (h : e.Twin view l l' e') (r : Register α ε) :
    ∃ user, r.hear e = { r with user } := by
  cases h with
  | controlled position c => exact ⟨l, rfl⟩
  | _ => exact ⟨r.user, rfl⟩

/-- Where the outside is not called the register learns at most who uses a handle. -/
theorem hear_twins (h : List.Forall₂ (Event.Twin view l l') events events') (r : Register α ε) :
    ∃ user, events.foldl Register.hear r = { r with user } := by
  induction h generalizing r with
  | nil => exact ⟨r.user, rfl⟩
  | cons he _ ih =>
      obtain ⟨user, hfirst⟩ := he.hear r
      obtain ⟨user', hlater⟩ := ih (r.hear _)
      exact ⟨user', by rw [List.foldl_cons, hlater, hfirst]⟩

/-- The register notes on whose behalf the outside is called, and under which ambient context. -/
theorem State.Summons.hear {S T : State σ α ε} {o o' : State.Outcome σ α ε} {c c' : Callback α ε}
    (h : State.Summons view l l' S T o o' c c' events events') (r : Register α ε) :
    ∃ user, o.2.foldl Register.hear r = { r with user, owners := ⟨l, S.ambient⟩ :: r.owners } := by
  rw [h.events.1, List.foldl_append]
  cases hc : h.callback with
  | client s =>
      obtain ⟨user, hbefore⟩ := hear_twins h.told r
      exact ⟨user, by rw [hbefore]; rfl⟩
  | handle id control =>
      obtain ⟨position, hbefore⟩ := h.handle id control rfl
      exact ⟨l, by rw [hbefore]; rfl⟩
  | source =>
      obtain ⟨user, hbefore⟩ := hear_twins h.told r
      exact ⟨user, by rw [hbefore]; rfl⟩

end

/-! ## Following a line -/

section

variable (P : Plan σ α ε) (view : Context → ν) (base home : Context) (k : Nat)

/-- The calls that wait where the outside has the turn, with the callbacks in progress, against
those of them that belong to line `k`. The two contexts in the middle are ambient here and there;
outside of all callbacks these are `base` and `home`. -/
inductive Apart : List Owner → Context → Context → List (Frame α ε) → List (Frame α ε) → Prop
  | nil : Apart [] base home [] []
  /-- Work for the line waits for a callback. -/
  | own {c c' : Callback α ε} {work work' rest rest' : List (Frame α ε)} {owners : List Owner}
    {ambient ambient' below below' : Context} (hc : c.Twin k 0 c')
    (hwork : Layers P view k 0 below below' ambient ambient' work work')
    (hrest : Apart owners below below' rest rest') :
    Apart (⟨k, ambient⟩ :: owners) ambient ambient' (.outside c :: (work ++ rest))
      (.outside c' :: (work' ++ rest'))
  /-- Work for another line waits for a callback. -/
  | other {l : Nat} (hl : l ≠ k) {c : Callback α ε} {work rest rest' : List (Frame α ε)}
    {owners : List Owner} {ambient ambient' below : Context} (hc : c.Twin l l c)
    (hwork : Layers P view l l below below ambient ambient work work)
    (hrest : Apart owners below ambient' rest rest') :
    Apart (⟨l, ambient⟩ :: owners) ambient ambient' (.outside c :: (work ++ rest)) rest'

end

namespace Apart

variable {P : Plan σ α ε} {view : Context → ν} {base home ambient ambient' : Context} {k : Nat}
  {owners : List Owner} {stack stack' : List (Frame α ε)}

/-- Work that is done begins inside of a callback, or outside of all. -/
theorem waits (h : Apart P view base home k owners ambient ambient' stack stack') :
    (stack = [] ∨ ∃ c rest, stack = .outside c :: rest) ∧
      (stack' = [] ∨ ∃ c rest, stack' = .outside c :: rest) := by
  induction h with
  | nil => exact ⟨.inl rfl, .inl rfl⟩
  | own hc hwork hrest ih => exact ⟨.inr ⟨_, _, rfl⟩, .inr ⟨_, _, rfl⟩⟩
  | other hl hc hwork hrest ih => exact ⟨.inr ⟨_, _, rfl⟩, ih.2⟩

/-- The ambient context is that of the innermost callback. -/
theorem ambient_eq (h : Apart P view base home k owners ambient ambient' stack stack') :
    ambient = ambientIn base owners := by
  cases h <;> rfl

/-- The ambient context of the line alone looks like that of its innermost callback. -/
theorem view_home (h : Apart P view base home k owners ambient ambient' stack stack') :
    view ambient' = view (ambientIn home (ownedBy k owners)) := by
  induction h with
  | nil => rfl
  | own hc hwork hrest ih =>
      rw [ownedBy_cons_self (o := ⟨k, _⟩) rfl]
      exact hwork.view_eq.symm
  | other hl hc hwork hrest ih => rw [ownedBy_cons_other hl, ih]

end Apart

namespace State

section

variable (P : Plan σ α ε) (view : Context → ν) (base home : Context) (k : Nat)

/-- Where the work for line `k` stands in `S`, it stands for the only line in `T`. -/
inductive Stands (owners : List Owner) (S T : State σ α ε) : Prop
  /-- The outside has the turn. -/
  | waiting {b b' : Bool} (hfocus : S.focus = .outside b) (hfocus' : T.focus = .outside b')
    (hstack : Apart P view base home k owners S.ambient T.ambient S.stack T.stack)
  /-- There is work for the line. -/
  | own {work work' rest rest' : List (Frame α ε)} {below below' : Context}
    (hstack : S.stack = work ++ rest) (hstack' : T.stack = work' ++ rest')
    (hwork : Layers P view k 0 below below' S.ambient T.ambient work work')
    (hrest : Apart P view base home k owners below below' rest rest')
    (hfocus : S.focus.Twin k 0 T.focus)
  /-- There is work for another line. -/
  | other {l : Nat} {work rest : List (Frame α ε)} {below : Context} {b : Bool} (hl : l ≠ k)
    (hstack : S.stack = work ++ rest)
    (hwork : Layers P view l l below below S.ambient S.ambient work work)
    (hrest : Apart P view base home k owners below T.ambient rest T.stack)
    (hfocus : S.focus.Twin l l S.focus) (hfocus' : T.focus = .outside b)

/-- The state `T`, with one line at most, stands where `S` stands for its line `k`. -/
structure Follows (owners : List Owner) (S T : State σ α ε) : Prop where
  lines : T.lines = S.lines[k]?.toList
  stands : Stands P view base home k owners S T

end

variable {P : Plan σ α ε} {view : Context → ν} {base home : Context} {k l : Nat}
  {owners : List Owner} {S T U V : State σ α ε} {events events' : List (Event α ε)}
  {o o' : Outcome σ α ε}

theorem getElem?_zero_of_lines (h : T.lines = S.lines[k]?.toList) :
    S.lines[k]? = T.lines[0]? := by
  rw [h]
  cases S.lines[k]? <;> rfl

theorem lines_of_modify (h : T.lines = S.lines[k]?.toList) {change : Line σ α → Line σ α}
    (hU : U.lines = S.lines.modify k change) (hV : V.lines = T.lines.modify 0 change) :
    V.lines = U.lines[k]?.toList := by
  rw [hU, hV, h, List.getElem?_modify_eq]
  cases S.lines[k]? <;> rfl

theorem lines_of_modify_other (hl : l ≠ k) (h : T.lines = S.lines[k]?.toList)
    {change : Line σ α → Line σ α} (hU : U.lines = S.lines.modify l change) :
    T.lines = U.lines[k]?.toList := by
  rw [hU, h, List.getElem?_modify]
  simp [hl]

/-- After a step the state is followed, and the follower tells the same of the line. -/
def Kept (P : Plan σ α ε) (view : Context → ν) (base home : Context) (k : Nat)
    (owners : List Owner) (T U : State σ α ε) (events : List (Event α ε)) : Prop :=
  ∃ owners' V events', Run P T (events'.map .event) V ∧ Follows P view base home k owners' U V ∧
    Echoes view k 0 events events' ∧ ∀ r : Register α ε, r.owners = owners →
      ∃ user, events.foldl Register.hear r = { r with user, owners := owners' }

theorem run_of_step (hstep : T.step? P = some (V, events')) : Run P T (events'.map .event) V :=
  (.step .refl hstep : Run P T ([] ++ events'.map .event) V)

/-- Work for the line goes on, and the follower makes the same step. -/
theorem kept_of_twins (hlines : T.lines = S.lines[k]?.toList) {A B : State σ α ε}
    {work work' rest rest' : List (Frame α ε)} {below below' : Context} (hA : A.lines = S.lines)
    (hB : B.lines = T.lines) (hstack : A.stack = work ++ rest) (hstack' : B.stack = work' ++ rest')
    (hwork : Layers P view k 0 below below' A.ambient B.ambient work work')
    (hrest : Apart P view base home k owners below below' rest rest')
    (h : Twins P view k 0 A B o o') (hstep : T.step? P = some o') :
    Kept P view base home k owners T o.1 o.2 := by
  obtain ⟨change, ho, ho'⟩ := h.lines
  rw [hA] at ho
  rw [hB] at ho'
  obtain ⟨new, new', hnew, hnew', htwins⟩ := h.stack
  refine ⟨owners, o'.1, o'.2, run_of_step hstep,
    ⟨lines_of_modify hlines ho ho', ?_⟩, echoes_of_twins h.events, fun r hr => ?_⟩
  · have hnow : o.1.stack = (new ++ work) ++ rest := by rw [hnew, hstack, List.append_assoc]
    have hnow' : o'.1.stack = (new' ++ work') ++ rest' := by
      rw [hnew', hstack', List.append_assoc]
    exact .own hnow hnow' (htwins.append hwork) hrest h.focus
  · obtain ⟨user, hheard⟩ := hear_twins h.events r
    exact ⟨user, by rw [hheard, ← hr]⟩

/-- Work for the line calls the outside, and so does the follower. -/
theorem kept_of_summons (hlines : T.lines = S.lines[k]?.toList)
    {work work' rest rest' : List (Frame α ε)} {below below' : Context}
    (hstack : S.stack = work ++ rest) (hstack' : T.stack = work' ++ rest')
    (hwork : Layers P view k 0 below below' S.ambient T.ambient work work')
    (hrest : Apart P view base home k owners below below' rest rest') {c c' : Callback α ε}
    (h : Summons view k 0 S T o o' c c' events events') (hstep : T.step? P = some o') :
    Kept P view base home k owners T o.1 o.2 := by
  obtain ⟨change, ho, ho'⟩ := h.lines
  refine ⟨⟨k, S.ambient⟩ :: owners, o'.1, o'.2, run_of_step hstep,
    ⟨lines_of_modify hlines ho ho', ?_⟩, ?_, fun r hr => ?_⟩
  · refine .waiting h.focus.1 h.focus.2 ?_
    rw [h.stack.1, h.stack.2, h.ambient.1, h.ambient.2, hstack, hstack']
    exact .own h.callback hwork hrest
  · rw [h.events.1, h.events.2]
    exact (echoes_of_twins h.told).append (h.callback.echoes hwork.view_eq)
  · rw [← hr]
    exact h.hear r

/-- Work for another line goes on, and the follower waits. -/
theorem kept_of_other (hlines : T.lines = S.lines[k]?.toList) (hl : l ≠ k) {A : State σ α ε}
    {work rest : List (Frame α ε)} {below : Context} {b : Bool} (hA : A.lines = S.lines)
    (hstack : A.stack = work ++ rest)
    (hwork : Layers P view l l below below A.ambient A.ambient work work)
    (hrest : Apart P view base home k owners below T.ambient rest T.stack)
    (hfocus : T.focus = .outside b) (h : Twins P view l l A A o o) :
    Kept P view base home k owners T o.1 o.2 := by
  obtain ⟨change, ho, -⟩ := h.lines
  rw [hA] at ho
  obtain ⟨new, new', hnew, hnew', htwins⟩ := h.stack
  obtain rfl : new = new' := List.append_cancel_right (hnew.symm.trans hnew')
  refine ⟨owners, T, [], .refl,
    ⟨lines_of_modify_other hl hlines ho, ?_⟩, echoes_nil_of_twins h.events hl 0, fun r hr => ?_⟩
  · have hnow : o.1.stack = (new ++ work) ++ rest := by rw [hnew, hstack, List.append_assoc]
    exact .other hl hnow (htwins.append hwork) hrest h.focus hfocus
  · obtain ⟨user, hheard⟩ := hear_twins h.events r
    exact ⟨user, by rw [hheard, ← hr]⟩

/-- Work for another line calls the outside, and the follower waits. -/
theorem kept_of_other_summons (hlines : T.lines = S.lines[k]?.toList) (hl : l ≠ k)
    {work rest : List (Frame α ε)} {below : Context} {b : Bool} (hstack : S.stack = work ++ rest)
    (hwork : Layers P view l l below below S.ambient S.ambient work work)
    (hrest : Apart P view base home k owners below T.ambient rest T.stack)
    (hfocus : T.focus = .outside b) {c c' : Callback α ε}
    (h : Summons view l l S S o o c c' events events') :
    Kept P view base home k owners T o.1 o.2 := by
  obtain ⟨change, ho, -⟩ := h.lines
  obtain rfl : c = c' := by
    have hsame := h.stack.1.symm.trans h.stack.2
    simpa using hsame
  refine ⟨⟨l, S.ambient⟩ :: owners, T, [], .refl,
    ⟨lines_of_modify_other hl hlines ho, ?_⟩, ?_, fun r hr => ?_⟩
  · refine .waiting h.focus.1 hfocus ?_
    rw [h.stack.1, h.ambient.1, hstack]
    exact .other hl h.callback hwork hrest
  · rw [h.events.1]
    exact (echoes_nil_of_twins h.told hl 0).append (h.callback.echoes_nil _ hl 0)
  · rw [← hr]
    exact h.hear r

/-- The turn goes back to the outside. -/
theorem kept_of_handOver (hlines : T.lines = S.lines[k]?.toList) {b b' : Bool}
    (hU : U = { S with focus := .outside b }) (hV : Run P T [] { T with focus := .outside b' })
    (hrest : Apart P view base home k owners S.ambient T.ambient S.stack T.stack) :
    Kept P view base home k owners T U [] := by
  subst hU
  exact ⟨owners, _, [], hV, ⟨hlines, .waiting rfl rfl hrest⟩, .nil,
    fun r hr => ⟨r.user, by rw [← hr]; rfl⟩⟩

theorem step?_of_call {c : Call α ε} (hfocus : S.focus = .call c) :
    S.step? P = some (make P S c) := by rw [step?, hfocus]

theorem step?_of_frame {b : Bool} {f : Frame α ε} {rest : List (Frame α ε)}
    (hfocus : S.focus = .back b) (hstack : S.stack = f :: rest) :
    S.step? P = some (resume P { S with stack := rest } b f) := by
  rw [step?, hfocus]
  dsimp only
  rw [hstack]

theorem step?_of_waiting {b : Bool} (hfocus : S.focus = .back b)
    (hstack : S.stack = [] ∨ ∃ c rest, S.stack = .outside c :: rest) :
    S.step? P = some ({ S with focus := .outside b }, []) := by
  rcases hstack with hstack | ⟨c, rest, hstack⟩
  · rw [step?, hfocus]
    dsimp only
    rw [hstack]
  · rw [step?_of_frame hfocus hstack, resume, ← hstack]

/-- The tap that a frame belongs to is there. -/
theorem Assembled.there (h : S.Assembled P) {f : Frame α ε} (hf : f ∈ S.stack) {place : Nat}
    {guard : Guard} {r : Tap.Resume α ε} (heq : f = .tap l place guard r) :
    (P.taps[place]?).isSome = true ∧ (S.tap? l place).isSome = true := by
  subst heq
  have htap := h.waiting l place guard r hf
  obtain ⟨p, hplan⟩ := h.planned htap
  exact ⟨by rw [hplan]; rfl, htap⟩

/-- A step of the work for the line. -/
theorem kept_of_own (hP : P.Steady view) (hassembled : S.Assembled P)
    (hlines : T.lines = S.lines[k]?.toList) {work work' rest rest' : List (Frame α ε)}
    {below below' : Context} (hstack : S.stack = work ++ rest) (hstack' : T.stack = work' ++ rest')
    (hwork : Layers P view k 0 below below' S.ambient T.ambient work work')
    (hrest : Apart P view base home k owners below below' rest rest')
    (hfocus : S.focus.Twin k 0 T.focus) (hstep : S.step? P = some o) :
    Kept P view base home k owners T o.1 o.2 := by
  have hline := getElem?_zero_of_lines hlines
  generalize hS : S.focus = focus at hfocus
  generalize hT : T.focus = focus' at hfocus
  cases hfocus with
  | @call c c' hc =>
      obtain rfl : make P S c = o := Option.some.inj ((step?_of_call hS).symm.trans hstep)
      cases make_alike hP hline hwork.view_eq hc with
      | goesOn htwins =>
          exact kept_of_twins hlines rfl rfl hstack hstack' hwork hrest htwins (step?_of_call hT)
      | calls hsummons =>
          exact kept_of_summons hlines hstack hstack' hwork hrest hsummons (step?_of_call hT)
  | back b =>
      generalize hA : S.ambient = ambient at hwork
      generalize hB : T.ambient = ambient' at hwork
      cases hwork with
      | nil =>
          have hwaits := hrest.waits
          rw [List.nil_append] at hstack hstack'
          rw [← hstack, ← hstack'] at hwaits hrest
          rw [← hA, ← hB] at hrest
          rw [step?_of_waiting hS hwaits.1] at hstep
          cases hstep
          exact kept_of_handOver hlines rfl (run_of_step (step?_of_waiting hT hwaits.2)) hrest
      | @cons _ _ f f' work work' hview hf hwork =>
          obtain rfl : resume P { S with stack := work ++ rest } b f = o :=
            Option.some.inj ((step?_of_frame hS hstack).symm.trans hstep)
          subst hA
          subst hB
          have hthere : ∀ place guard r, f = .tap k place guard r → _ := fun _ _ _ heq =>
            hassembled.there (by rw [hstack]; exact List.mem_cons_self) heq
          let A : State σ α ε := { S with stack := work ++ rest }
          let B : State σ α ε := { T with stack := work' ++ rest' }
          have htwins := resume_twins (S := A) (T := B) hline hview hf hwork.view_eq hthere b
          exact kept_of_twins (A := { A with ambient := f.release S.ambient })
            (B := { B with ambient := f'.release T.ambient }) hlines rfl rfl rfl rfl hwork hrest
            htwins (step?_of_frame hT hstack')

/-- A step of the work for another line. -/
theorem kept_of_foreign (hP : P.Steady view) (hassembled : S.Assembled P)
    (hlines : T.lines = S.lines[k]?.toList) (hl : l ≠ k) {work rest : List (Frame α ε)}
    {below : Context} {b' : Bool} (hstack : S.stack = work ++ rest)
    (hwork : Layers P view l l below below S.ambient S.ambient work work)
    (hrest : Apart P view base home k owners below T.ambient rest T.stack)
    (hfocus : S.focus.Twin l l S.focus) (hfocus' : T.focus = .outside b')
    (hstep : S.step? P = some o) : Kept P view base home k owners T o.1 o.2 := by
  generalize hS : S.focus = focus at hfocus
  cases hfocus with
  | @call c _ hc =>
      obtain rfl : make P S c = o := Option.some.inj ((step?_of_call hS).symm.trans hstep)
      cases make_alike (S := S) (T := S) hP rfl rfl hc with
      | goesOn htwins => exact kept_of_other hlines hl rfl hstack hwork hrest hfocus' htwins
      | calls hsummons =>
          exact kept_of_other_summons hlines hl hstack hwork hrest hfocus' hsummons
  | back b =>
      cases work with
      | nil =>
          rw [List.nil_append] at hstack
          obtain rfl := hwork.of_nil.1
          have hwaits := hrest.waits.1
          rw [← hstack] at hwaits hrest
          rw [step?_of_waiting hS hwaits] at hstep
          cases hstep
          have hstays : Run P T [] { T with focus := .outside b' } := by
            rw [← hfocus']
            exact .refl
          exact kept_of_handOver hlines rfl hstays hrest
      | cons f work =>
          obtain ⟨hf, hwork⟩ := hwork.of_cons
          obtain rfl : resume P { S with stack := work ++ rest } b f = o :=
            Option.some.inj ((step?_of_frame hS hstack).symm.trans hstep)
          have hthere : ∀ place guard r, f = .tap l place guard r → _ := fun _ _ _ heq =>
            hassembled.there (by rw [hstack]; exact List.mem_cons_self) heq
          let A : State σ α ε := { S with stack := work ++ rest }
          have htwins : Twins P view l l { A with ambient := f.release S.ambient }
              { A with ambient := f.release S.ambient } (resume P A b f) (resume P A b f) :=
            resume_twins (S := A) (T := A) rfl rfl hf rfl hthere b
          exact kept_of_other (A := { A with ambient := f.release S.ambient }) hlines hl rfl rfl
            hwork hrest hfocus' htwins

/-- A step of the machine is followed. -/
theorem Follows.step (hP : P.Steady view) (hassembled : S.Assembled P)
    (h : Follows P view base home k owners S T) (hstep : S.step? P = some (U, events)) :
    Kept P view base home k owners T U events := by
  cases h.stands with
  | waiting hfocus hfocus' hstack =>
      rw [step?, hfocus] at hstep
      cases hstep
  | own hstack hstack' hwork hrest hfocus =>
      exact kept_of_own hP hassembled h.lines hstack hstack' hwork hrest hfocus hstep
  | other hl hstack hwork hrest hfocus hfocus' =>
      exact kept_of_foreign hP hassembled h.lines hl hstack hwork hrest hfocus hfocus' hstep

/-! ## Moves -/

/-- The register knows the lines and the callbacks in progress, and `T` stands where `S` stands for
its line `k`. -/
structure Accords (P : Plan σ α ε) (view : Context → ν) (base home : Context) (k : Nat)
    (r : Register α ε) (S T : State σ α ε) : Prop where
  lines : r.lines = S.lines.length
  follows : Follows P view base home k r.owners S T

/-- A call for the line is made from outside, and the follower makes it, too. -/
theorem follows_of_own_call (hlines : V.lines = U.lines[k]?.toList)
    (hview : view U.ambient = view V.ambient)
    (hstack : Apart P view base home k owners U.ambient V.ambient U.stack V.stack)
    (hfocus : U.focus.Twin k 0 V.focus) : Follows P view base home k owners U V :=
  ⟨hlines, .own (List.nil_append _).symm (List.nil_append _).symm (.nil hview) hstack hfocus⟩

/-- A call for another line is made from outside, and the follower waits. -/
theorem follows_of_other_call (hl : l ≠ k) {b : Bool} (hlines : T.lines = U.lines[k]?.toList)
    (hstack : Apart P view base home k owners U.ambient T.ambient U.stack T.stack)
    (hfocus : U.focus.Twin l l U.focus) (hfocus' : T.focus = .outside b) :
    Follows P view base home k owners U T :=
  ⟨hlines, .other hl (List.nil_append _).symm (.nil rfl) hstack hfocus hfocus'⟩

/-- The outside makes a move for some line, and the follower makes it if that is its own. -/
structure Moving (P : Plan σ α ε) (view : Context → ν) (base home : Context) (k : Nat)
    (owners : List Owner) (S T U : State σ α ε) (m : Move α ε) (l : Nat) : Prop where
  own : l = k → view S.ambient = view T.ambient →
    ∃ V, T.move? P m.alone = some V ∧ Follows P view base home k owners U V
  other : l ≠ k → Follows P view base home k owners U T

theorem addLine_lines_self (P : Plan σ α ε) (h : T.lines = S.lines[k]?.toList)
    (hk : S.lines.length = k) (client : Client) :
    (addLine P T client).lines = (addLine P S client).lines[k]?.toList := by
  subst hk
  rw [List.getElem?_eq_none (Nat.le_refl _)] at h
  simp [addLine, h]

theorem addLine_lines_other (P : Plan σ α ε) (h : T.lines = S.lines[k]?.toList)
    (hk : S.lines.length ≠ k) (client : Client) :
    T.lines = (addLine P S client).lines[k]?.toList := by
  rw [h]
  rcases Nat.lt_or_gt_of_ne hk with hlt | hgt
  · rw [List.getElem?_eq_none (by omega), List.getElem?_eq_none (by simp [addLine]; omega)]
  · rw [addLine, List.getElem?_append_left hgt]

/-- A move that is a call for a line. -/
theorem moving_of_call {b : Bool} (h : T.lines = S.lines[k]?.toList)
    (hstack : Apart P view base home k owners S.ambient T.ambient S.stack T.stack)
    (hfocus : T.focus = .outside b) {m : Move α ε} {c c' : Call α ε} (hc : c.Twin l 0 c')
    (hself : c.Twin l l c) (hmove : l = k → T.move? P m.alone = some (T.call c')) :
    Moving P view base home k owners S T (S.call c) m l where
  own := by
    rintro rfl hview
    exact ⟨_, hmove rfl, follows_of_own_call h hview hstack (.call hc)⟩
  other hl := follows_of_other_call hl h hstack (.call hself) hfocus

/-- A callback returns to the work that waits for it. -/
theorem moving_of_answer {c : Callback α ε} {rest : List (Frame α ε)} {b b' : Bool}
    (h : T.lines = S.lines[k]?.toList) (hfocus : T.focus = .outside b')
    (hstack : S.stack = .outside c :: rest)
    (hapart : Apart P view base home k owners S.ambient T.ambient S.stack T.stack) :
    ∃ l, owners.head?.map Owner.line = some l ∧
      Moving P view base home k owners.tail S T
        (({ S with stack := rest } : State σ α ε).back (c.answer b)) (.answer b) l := by
  rw [hstack] at hapart
  generalize hT : T.stack = stack' at hapart
  generalize hA : S.ambient = ambient at hapart
  generalize hB : T.ambient = ambient' at hapart
  cases hapart with
  | @own _ c' work work' rest rest' owners _ _ _ _ hc hwork hrest =>
      subst hA
      subst hB
      refine ⟨k, rfl, fun _ _ => ?_, fun hne => absurd rfl hne⟩
      have hmove : T.move? P (.answer b) =
          some (({ T with stack := work' ++ rest' } : State σ α ε).back (c'.answer b)) := by
        simp only [move?, hfocus, hT]
      refine ⟨_, hmove, h, .own rfl rfl hwork hrest ?_⟩
      rw [← hc.answer b]
      exact .back _
  | @other l hl _ work rest rest' owners _ _ _ hc hwork hrest =>
      subst hA
      subst hB
      refine ⟨l, rfl, fun heq => absurd heq hl, fun _ => ⟨h, ?_⟩⟩
      exact .other hl rfl hwork (hT ▸ hrest) (.back _) hfocus

/-- A move of the outside is followed. -/
theorem Follows.move (h : Follows P view base home k owners S T) {m : Move α ε}
    (hmove : S.move? P m = some U) {r : Register α ε} (hlines : r.lines = S.lines.length)
    (howners : r.owners = owners) :
    ∃ l, r.line? m = some l ∧ Moving P view base home k (r.note k m).owners S T U m l := by
  subst howners
  obtain ⟨b, hturn⟩ := move_turn (move?_moved hmove)
  cases h.stands with
  | own hstack hstack' hwork hrest hfocus =>
      rw [hturn] at hfocus
      cases hfocus
  | other hl hstack hwork hrest hfocus =>
      rw [hturn] at hfocus
      cases hfocus
  | @waiting _ b' hfocus hfocus' hstack =>
      cases m with
      | subscribe client =>
          simp only [move?, hturn, Option.some.injEq] at hmove
          subst hmove
          refine ⟨S.lines.length, congrArg some hlines, fun hk hview => ?_, fun hk => ?_⟩
          · have hempty : T.lines.length = 0 := by
              rw [h.lines, ← hk, List.getElem?_eq_none (Nat.le_refl _)]
              rfl
            have hjoins : T.move? P (.subscribe client) =
                some ((addLine P T client).call (.join 0 P.depth client.context)) := by
              simp only [move?, hfocus', hempty]
            subst hk
            exact ⟨_, hjoins, follows_of_own_call (addLine_lines_self P h.lines rfl client) hview
              hstack (.call (.join _ _))⟩
          · exact follows_of_other_call hk (addLine_lines_other P h.lines hk client) hstack
              (.call (.join _ _)) hfocus'
      | signal l s =>
          simp only [move?, hturn] at hmove
          split at hmove
          next hdriven =>
            cases hmove
            refine ⟨l, rfl, moving_of_call h.lines hstack hfocus' (sourceSignal_twin s)
              (sourceSignal_twin s) fun hk => ?_⟩
            simp only [Move.alone, move?, hfocus', hdriven, if_true]
          · cases hmove
      | control l nth c =>
          simp only [move?, hturn] at hmove
          obtain ⟨handle, hreceived, rfl⟩ := Option.map_eq_some_iff.mp hmove
          refine ⟨l, rfl, moving_of_call h.lines hstack hfocus' (.control _ handle c)
            (.control _ handle c) fun hk => ?_⟩
          subst hk
          have hsame : T.received? 0 nth = some handle := by
            rw [← hreceived, received?, received?, getElem?_zero_of_lines h.lines]
          simp only [Move.alone, move?, hfocus', hsame, Option.map_some]
      | direct l c =>
          simp only [move?, hturn, Option.some.injEq] at hmove
          subst hmove
          refine ⟨l, rfl, moving_of_call h.lines hstack hfocus' (.control _ _ c)
            (.control _ _ c) fun hk => ?_⟩
          simp only [Move.alone, move?, hfocus']
      | answer b'' =>
          simp only [move?, hturn] at hmove
          split at hmove
          next c rest hS =>
            cases hmove
            exact moving_of_answer h.lines hfocus' hS hstack
          · cases hmove

theorem length_of_move {m : Move α ε} (hmove : S.move? P m = some U) {r : Register α ε}
    (hlines : r.lines = S.lines.length) : (r.note k m).lines = U.lines.length := by
  cases move?_moved hmove with
  | subscribe hturn hU hstack hnext => simp [Register.note, addLine, hU, hlines]
  | signal hturn hU hstack hnext => simp [Register.note, hU, hlines]
  | control hturn hreceived hU hstack hnext => simp [Register.note, hU, hlines]
  | direct hturn hU hstack hnext => simp [Register.note, hU, hlines]
  | answer hturn hstack hU hrest hnext => simp [Register.note, hU, hlines]

end State

variable {P : Plan σ α ε} {U : State σ α ε} {history : List (Entry α ε)} {ambient : Context}

/-- Where the outside has the turn, the follower's outside has it, too. -/
theorem State.Accords.waiting {view : Context → ν} {base home : Context} {k : Nat}
    {r : Register α ε} {S T : State σ α ε} (h : State.Accords P view base home k r S T) {b : Bool}
    (hfocus : S.focus = .outside b) : ∃ b', T.focus = .outside b' ∧
      Apart P view base home k r.owners S.ambient T.ambient S.stack T.stack := by
  cases h.follows.stands with
  | waiting _ hfocus' hstack => exact ⟨_, hfocus', hstack⟩
  | own _ _ _ _ htwin =>
      rw [hfocus] at htwin
      cases htwin
  | other _ _ _ _ htwin _ =>
      rw [hfocus] at htwin
      cases htwin

/-- A run is followed, for each of its lines that is at home, by a run of that line alone, in which
the calls of the line are made. -/
theorem Run.followed {view : Context → ν} (hP : P.Steady view)
    (hrun : Run P (.start P ambient) history U) (k : Nat) {home : Context}
    (hhome : AtHome view k ambient home history) : ∃ alone V, Run P (.start P home) alone V ∧
      State.Accords P view ambient home k (register k history) U V ∧
      moves alone = callsOf k history ∧ Echoes view k 0 (happened history) (happened alone) := by
  induction hrun with
  | refl => exact ⟨[], _, .refl, ⟨rfl, rfl, .waiting rfl rfl .nil⟩, rfl, .nil⟩
  | @step history T U events hrun hstep ih =>
      have hbefore : AtHome view k ambient home history := fun owners howners =>
        hhome owners (by rwa [originsOf_events])
      obtain ⟨alone, V, halone, haccords, hmoves, hechoes⟩ := ih hbefore
      obtain ⟨owners, W, events', hW, hfollows, hlater, hheard⟩ :=
        haccords.follows.step hP (.run (.start ambient) hrun) hstep
      obtain ⟨user, hregister⟩ := hheard (register k history) rfl
      rw [← register_events] at hregister
      refine ⟨_, W, halone.trans hW, ?_, ?_, ?_⟩
      · rw [hregister]
        exact ⟨haccords.lines.trans (State.step_length (State.step?_stepped hstep)).symm, hfollows⟩
      · rw [callsOf, hregister, moves_append, moves_map_event, List.append_nil]
        exact hmoves
      · simpa using hechoes.append hlater
  | @move history T U m hrun hmove ih =>
      have horigins := originsOf_move k history m
      have hbefore : AtHome view k ambient home history := fun owners howners =>
        hhome owners (by rw [horigins]; split <;> simp [howners])
      obtain ⟨alone, V, halone, haccords, hmoves, hechoes⟩ := ih hbefore
      obtain ⟨l, hl, hmoving⟩ := haccords.follows.move hmove haccords.lines rfl
      have hcalls : callsOf k (history ++ [.move m]) =
          if l = k then callsOf k history ++ [m.alone] else callsOf k history := by
        rw [callsOf, register_move, Register.note_calls, hl]
        simp [callsOf]
      have hlines := State.length_of_move (k := k) hmove haccords.lines
      rw [← register_move] at hmoving hlines
      by_cases hown : l = k
      · have hview : view T.ambient = view V.ambient := by
          have hnow := hhome (register k history).owners (by rw [horigins, hl, hown]; simp)
          obtain ⟨b, hturn⟩ := State.move_turn (State.move?_moved hmove)
          obtain ⟨b', hturn', hapart⟩ := haccords.waiting hturn
          rw [hapart.ambient_eq, hapart.view_home]
          exact hnow
        obtain ⟨W, hW, hfollows⟩ := hmoving.own hown hview
        refine ⟨_, W, halone.move hW, ⟨hlines, hfollows⟩, ?_, by simpa using hechoes⟩
        rw [hcalls, if_pos hown, moves_append, hmoves]
        rfl
      · refine ⟨alone, V, halone, ⟨hlines, hmoving.other hown⟩, ?_, by simpa using hechoes⟩
        rw [hcalls, if_neg hown, hmoves]

end Wiretap

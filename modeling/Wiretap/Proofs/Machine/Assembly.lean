import Wiretap.Proofs.Machine.Lines

/-!
# How lines are assembled

A line is assembled from its client down to the source, and at once: no call comes in between. So
the taps that have been set up are those from some place on, a tap that refused to be set up stays
away for good, and every tap that can be called by another one is there.
-/

namespace Wiretap

variable {K : Kinds} {σ α ε : Type}

/-- The receiver at a position is about to be joined to what is before it. -/
structure State.Joining (P : Plan σ α ε) (S : State σ α ε) (line position : Nat) : Prop where
  started : line < S.lines.length
  inside : position ≤ P.depth
  before : ∀ place, place < position → S.tap? line place = none
  behind : ∀ place, position ≤ place → place < P.depth → (S.tap? line place).isSome = true
  refusing : ∀ q f, .refusing line q f ∉ S.stack

/-- Lines are assembled as far as they have to be. -/
structure State.Assembled (P : Plan σ α ε) (S : State σ α ε) : Prop where
  lengths : ∀ l ∈ S.lines, l.taps.length = P.depth
  /-- What is behind a tap is there, too. -/
  behind : ∀ line place q, (S.tap? line place).isSome = true → place < q → q < P.depth →
    (S.tap? line q).isSome = true
  /-- A tap that waits is there. -/
  waiting : ∀ line place guard r, .tap line place guard r ∈ S.stack →
    (S.tap? line place).isSome = true
  /-- A tap that refused to be set up is not there, but its receiver is. -/
  refusing : ∀ line q f, .refusing line q f ∈ S.stack → line < S.lines.length ∧
    ∃ place, q = place + 1 ∧ place < P.depth ∧ S.tap? line place = none ∧
      (q < P.depth → (S.tap? line q).isSome = true)
  /-- A tap that is called by another one is there. -/
  called : ∀ line place s, S.focus = .call (.tap line (place + 1) s) →
    (S.tap? line (place + 1)).isSome = true
  joining : ∀ line position context, S.focus = .call (.join line position context) →
    S.Joining P line position

/-- The frame belongs neither to a tap nor to the lack of one. -/
def Frame.isForeign : Frame α ε → Bool
  | .tap .. | .refusing .. => false
  | _ => true

namespace State.Assembled

variable {P : Plan σ α ε} {S U : State σ α ε} {events : List (Event α ε)} {m : Move α ε}

theorem signal_eq_tap {line position l p : Nat} {s : Signal α (TapError ε)} {s' : Signal α ε}
    (h : (.call (P.signal line position s) : Focus α ε) = .call (.tap l p s')) :
    position < P.depth ∧ line = l ∧ position = p := by
  unfold Plan.signal at h
  split at h
  next hlt =>
    cases h
    exact ⟨hlt, rfl, rfl⟩
  next => cases h

theorem signal_ne_join (line position l p : Nat) (s : Signal α (TapError ε)) (context : Context) :
    (.call (P.signal line position s) : Focus α ε) ≠ .call (.join l p context) := by
  unfold Plan.signal
  split <;> simp

theorem sourceSignal_ne_tap (line l place : Nat) (s : Signal α ε) (s' : Signal α ε) :
    (.call (P.sourceSignal line s) : Focus α ε) ≠ .call (.tap l (place + 1) s') := by
  unfold Plan.sourceSignal
  split <;> simp

theorem sourceSignal_ne_join (line l position : Nat) (s : Signal α ε) (context : Context) :
    (.call (P.sourceSignal line s) : Focus α ε) ≠ .call (.join l position context) := by
  unfold Plan.sourceSignal
  split <;> simp

/-- Nothing is set up, and every new frame is that of a tap that is there or concerns no tap. -/
theorem keep (h : S.Assembled P) (hlengths : ∀ l ∈ U.lines, l.taps.length = P.depth)
    (hcount : S.lines.length ≤ U.lines.length)
    (htaps : ∀ l p, (U.tap? l p).isSome = (S.tap? l p).isSome)
    (hframes : ∀ f ∈ U.stack, f ∈ S.stack ∨ f.isForeign = true ∨
      ∃ line place guard r, f = .tap line place guard r ∧ (S.tap? line place).isSome = true)
    (hcalled : ∀ line place s, U.focus = .call (.tap line (place + 1) s) →
      (S.tap? line (place + 1)).isSome = true)
    (hjoining : ∀ line position context, U.focus = .call (.join line position context) →
      U.Joining P line position) : U.Assembled P where
  lengths := hlengths
  behind := by
    intro line place q hplace hlt hdepth
    rw [htaps] at hplace ⊢
    exact h.behind line place q hplace hlt hdepth
  waiting := by
    intro line place guard r hmem
    rw [htaps]
    rcases hframes _ hmem with hold | hforeign | ⟨line', place', guard', r', heq, hsome⟩
    · exact h.waiting line place guard r hold
    · cases hforeign
    · cases heq
      exact hsome
  refusing := by
    intro line q f hmem
    rcases hframes _ hmem with hold | hforeign | ⟨line', place', guard', r', heq, hsome⟩
    · obtain ⟨hline, place, rfl, hinside, hnone, hsome⟩ := h.refusing line q f hold
      refine ⟨Nat.lt_of_lt_of_le hline hcount, place, rfl, hinside, ?_, ?_⟩
      · rw [← Option.not_isSome_iff_eq_none, htaps, hnone]
        simp
      · rw [htaps]
        exact hsome
    · cases hforeign
    · cases heq
  called := by
    intro line place s hfocus
    rw [htaps]
    exact hcalled line place s hfocus
  joining := hjoining

/-- The lengths of lines do not depend on what happens to their taps and clients. -/
theorem lengths_of_getElem? (h : S.Assembled P) (hlines : ∀ (l : Nat) (found : Line σ α),
      U.lines[l]? = some found → ∃ old : Line σ α, S.lines[l]? = some old ∧
        found.taps.length = old.taps.length) :
    ∀ l ∈ U.lines, l.taps.length = P.depth := by
  intro found hmem
  obtain ⟨l, hl⟩ := List.mem_iff_getElem?.mp hmem
  obtain ⟨old, hold, hlength⟩ := hlines l found hl
  rw [hlength]
  exact h.lengths old (List.mem_of_getElem? hold)

theorem lengths_of_bare (h : S.Assembled P)
    (hlines : U.lines.map Line.bare = S.lines.map Line.bare) :
    ∀ l ∈ U.lines, l.taps.length = P.depth := by
  refine h.lengths_of_getElem? fun l found hfound => ?_
  have hline := getElem?_bare hlines l
  rw [hfound] at hline
  cases hold : S.lines[l]? with
  | none => simp [hold] at hline
  | some old =>
      simp only [hold, Option.map_some, Option.some.injEq] at hline
      exact ⟨old, rfl, congrArg (fun line => line.taps.length) hline⟩

theorem lengths_modify (h : S.Assembled P) {line : Nat} {f : Line σ α → Line σ α}
    (hf : ∀ l, (f l).taps.length = l.taps.length) (hlines : U.lines = S.lines.modify line f) :
    ∀ l ∈ U.lines, l.taps.length = P.depth := by
  refine h.lengths_of_getElem? fun l found hfound => ?_
  rw [hlines, List.getElem?_modify] at hfound
  obtain ⟨old, hold, rfl⟩ := Option.map_eq_some_iff.mp hfound
  refine ⟨old, hold, ?_⟩
  split
  · exact hf old
  · rfl

theorem hasPlace (h : S.Assembled P) {line place : Nat} (hline : line < S.lines.length)
    (hplace : place < P.depth) : S.HasPlace line place := by
  refine ⟨S.lines[line], by simp [hline], ?_⟩
  rw [h.lengths _ (List.getElem_mem hline)]
  exact hplace

theorem planned (h : S.Assembled P) {line place : Nat}
    (htap : (S.tap? line place).isSome = true) : ∃ p, P.taps[place]? = some p := by
  obtain ⟨l, hl, hplace⟩ := hasPlace_of_tap? htap
  rw [h.lengths l (List.mem_of_getElem? hl)] at hplace
  exact ⟨P.taps[place], List.getElem?_eq_getElem hplace⟩

theorem turned (h : S.Assembled P) {rest : List (Frame α ε)} {line place : Nat} {t : Tap σ}
    {turn : Tap.Turn σ α ε} (htap : S.tap? line place = some t)
    (hrest : ∀ f ∈ rest, f ∈ S.stack) (hturned : Turned P S rest line place turn U) :
    U.Assembled P := by
  have hsome : (S.tap? line place).isSome = true := by rw [htap]; rfl
  have hplace := hasPlace_of_tap? hsome
  have hcount : S.lines.length = U.lines.length := by
    rw [hturned.lines]
    simp [setTap, modifyLine]
  have htaps : ∀ l p, (U.tap? l p).isSome = (S.tap? l p).isSome := by
    intro l p
    rw [tap?_eq hturned.lines]
    by_cases hhere : l = line ∧ p = place
    · obtain ⟨rfl, rfl⟩ := hhere
      rw [setTap_tap?_self hplace, htap]
      rfl
    · rw [setTap_tap?_other hhere]
  have hlengths : ∀ l ∈ U.lines, l.taps.length = P.depth :=
    h.lengths_modify (f := (·.setTap place turn.tap)) (fun l => by simp [Line.setTap]) hturned.lines
  refine h.keep hlengths (Nat.le_of_eq hcount) htaps (fun f hf => ?_) ?_ ?_
  · rcases hturned.stack with ⟨-, hstack⟩ | ⟨guard, r, -, hstack⟩
    · exact .inl (hrest f (hstack ▸ hf))
    · rw [hstack] at hf
      rcases List.mem_cons.mp hf with rfl | hf
      · exact .inr (.inr ⟨line, place, guard, r, rfl, hsome⟩)
      · exact .inl (hrest f hf)
  · intro l p s hcall
    rcases hturned.focus with ⟨b, hnext⟩ | ⟨s', hnext⟩ | ⟨handle, c, hnext⟩
    · rw [hnext] at hcall
      cases hcall
    · -- The receiver of a tap that is there is there, too.
      obtain ⟨hlt, rfl, heq⟩ := signal_eq_tap (hnext.symm.trans hcall)
      rw [← heq]
      exact h.behind line place (place + 1) hsome (Nat.lt_succ_self place) hlt
    · rw [hnext] at hcall
      cases hcall
  · intro l position context hcall
    rcases hturned.focus with ⟨b, hnext⟩ | ⟨s, hnext⟩ | ⟨handle, c, hnext⟩
    · rw [hnext] at hcall
      cases hcall
    · exact absurd (hnext.symm.trans hcall) (signal_ne_join _ _ _ _ _ _)
    · rw [hnext] at hcall
      cases hcall

theorem setUp (h : S.Assembled P) {line place : Nat} {context augmented : Context} {t : Tap σ}
    {guard : Guard} (hfocus : S.focus = .call (.join line (place + 1) context))
    (hlines : U.lines = (S.setTap line place t).lines)
    (hstack : U.stack = .joining line place guard :: S.stack)
    (hnext : U.focus = .call (.join line place augmented)) : U.Assembled P := by
  have hjoining := h.joining _ _ _ hfocus
  have hplace : S.HasPlace line place := h.hasPlace hjoining.started hjoining.inside
  have hhere : U.tap? line place = some t := by
    rw [tap?_eq hlines]
    exact setTap_tap?_self hplace t
  have hother : ∀ l p, ¬(l = line ∧ p = place) → U.tap? l p = S.tap? l p := by
    intro l p hne
    rw [tap?_eq hlines]
    exact setTap_tap?_other hne t
  have hmono : ∀ l p, (S.tap? l p).isSome = true → (U.tap? l p).isSome = true := by
    intro l p hsome
    by_cases heq : l = line ∧ p = place
    · rw [heq.1, heq.2, hhere]
      rfl
    · rwa [hother l p heq]
  have hcount : U.lines.length = S.lines.length := by
    rw [hlines]
    simp [setTap, modifyLine]
  constructor
  · exact h.lengths_modify (f := (·.setTap place t)) (fun l => by simp [Line.setTap]) hlines
  · intro l p q hsome hlt hdepth
    by_cases heq : l = line ∧ p = place
    · obtain ⟨rfl, rfl⟩ := heq
      exact hmono l q (hjoining.behind q hlt hdepth)
    · rw [hother l p heq] at hsome
      exact hmono l q (h.behind l p q hsome hlt hdepth)
  · intro l p guard' r hmem
    rw [hstack] at hmem
    rcases List.mem_cons.mp hmem with heq | hmem
    · cases heq
    · exact hmono l p (h.waiting l p guard' r hmem)
  · intro l q f hmem
    rw [hstack] at hmem
    rcases List.mem_cons.mp hmem with heq | hold
    · cases heq
    · obtain ⟨hstarted, p, rfl, hinside, hnone, hsome⟩ := h.refusing l q f hold
      refine ⟨hcount ▸ hstarted, p, rfl, hinside, ?_, fun hdepth => hmono l (p + 1) (hsome hdepth)⟩
      rwa [hother]
      rintro ⟨rfl, rfl⟩
      exact hjoining.refusing _ f hold
  · simp [hnext]
  · intro l p context' hcall
    rw [hnext] at hcall
    cases hcall
    constructor
    · exact hcount ▸ hjoining.started
    · exact Nat.le_of_succ_le hjoining.inside
    · intro p hp
      rw [hother line p (by omega)]
      exact hjoining.before p (by omega)
    · intro q hle hdepth
      rcases Nat.eq_or_lt_of_le hle with rfl | hlt
      · rw [hhere]
        rfl
      · exact hmono line q (hjoining.behind q hlt hdepth)
    · intro q f hmem
      rw [hstack] at hmem
      rcases List.mem_cons.mp hmem with heq | hmem
      · cases heq
      · exact hjoining.refusing q f hmem

theorem refuse (h : S.Assembled P) {line place : Nat} {context : Context} {f : Fault}
    (hfocus : S.focus = .call (.join line (place + 1) context)) (hlines : U.lines = S.lines)
    (hstack : U.stack = .refusing line (place + 1) f :: S.stack)
    (hnext : U.focus = .call (P.signal line (place + 1) (.subscribe .empty))) :
    U.Assembled P := by
  have hjoining := h.joining _ _ _ hfocus
  constructor
  · rw [hlines]
    exact h.lengths
  · intro l p q
    rw [tap?_eq hlines, tap?_eq hlines]
    exact h.behind l p q
  · intro l p guard r hmem
    rw [hstack] at hmem
    rcases List.mem_cons.mp hmem with heq | hmem
    · cases heq
    · rw [tap?_eq hlines]
      exact h.waiting l p guard r hmem
  · intro l q g hmem
    rw [hstack] at hmem
    rw [hlines]
    simp only [tap?_eq hlines]
    rcases List.mem_cons.mp hmem with heq | hmem
    · cases heq
      exact ⟨hjoining.started, place, rfl, hjoining.inside,
        hjoining.before place (Nat.lt_succ_self place),
        hjoining.behind (place + 1) (Nat.le_refl _)⟩
    · exact h.refusing l q g hmem
  · intro l p s hcall
    obtain ⟨hlt, rfl, heq⟩ := signal_eq_tap (hnext.symm.trans hcall)
    rw [tap?_eq hlines, ← heq]
    exact hjoining.behind (place + 1) (Nat.le_refl _) hlt
  · intro l p context' hcall
    exact absurd (hnext.symm.trans hcall) (signal_ne_join _ _ _ _ _ _)

/-- The lines and the frames that concern taps stay, and no tap is called by another one. -/
theorem pass (h : S.Assembled P) (hlines : U.lines.map Line.bare = S.lines.map Line.bare)
    (hframes : ∀ f ∈ U.stack, f ∈ S.stack ∨ f.isForeign = true)
    (hcalled : ∀ line place s, U.focus ≠ .call (.tap line (place + 1) s))
    (hjoining : ∀ line position context, U.focus ≠ .call (.join line position context)) :
    U.Assembled P := by
  refine h.keep (h.lengths_of_bare hlines) (Nat.le_of_eq (length_of_bare hlines).symm)
    (fun l p => by rw [tap?_of_bare hlines]) (fun f hf => ?_)
    (fun line place s hcall => absurd hcall (hcalled line place s))
    fun line position context hcall => absurd hcall (hjoining line position context)
  rcases hframes f hf with hold | hforeign
  · exact .inl hold
  · exact .inr (.inl hforeign)

theorem emitting_stack {line : Nat} {rest : List (Frame α ε)} (h : S.Emitting line rest) :
    ∀ f ∈ rest, f ∈ S.stack := by
  rcases h with ⟨n, -, hstack⟩ | ⟨b, n, last, -, hstack⟩
  · exact fun f hf => hstack ▸ hf
  · exact fun f hf => hstack ▸ List.mem_cons_of_mem _ hf

theorem step (h : S.Assembled P) (hstep : Stepped P S U events) : U.Assembled P := by
  cases hstep with
  | serve hfocus hinput hplan htap hturned => exact h.turned htap (fun f hf => hf) hturned
  | resume hfocus hstack hplan htap hturned =>
      exact h.turned htap (fun f hf => hstack ▸ List.mem_cons_of_mem _ hf) hturned
  | setUp hfocus hplan hlines hstack hnext => exact h.setUp hfocus hlines hstack hnext
  | refuse hfocus hplan hlines hstack hnext => exact h.refuse hfocus hlines hstack hnext
  | @explain b line position f rest hfocus hstack hlines hrest hnext hquiet =>
      obtain ⟨-, place, rfl, -, -, hsome⟩ :=
        h.refusing line position f (hstack ▸ List.mem_cons_self)
      refine h.keep (hlines ▸ h.lengths) (Nat.le_of_eq (congrArg List.length hlines).symm)
        (fun l p => by rw [tap?_eq hlines]) (fun f hf => .inl ?_) ?_ ?_
      · rw [hstack]
        exact List.mem_cons_of_mem _ (hrest ▸ hf)
      · intro l p s hcall
        obtain ⟨hlt, rfl, heq⟩ := signal_eq_tap (hnext.symm.trans hcall)
        rw [← heq]
        exact hsome hlt
      · intro l p context hcall
        exact absurd (hnext.symm.trans hcall) (signal_ne_join _ _ _ _ _ _)
  | @hear line s hfocus hlines hstack hnext =>
      refine h.keep (h.lengths_modify (f := (·.receive s)) (fun l => by cases s <;> rfl) hlines)
        ?_ (fun l p => by rw [receive_tap? hlines]) (fun f hf => ?_) ?_ ?_
      · exact Nat.le_of_eq (by rw [hlines, List.length_modify])
      · rw [hstack] at hf
        rcases List.mem_cons.mp hf with rfl | hf
        · exact .inr (.inl rfl)
        · exact .inl hf
      · simp [hnext]
      · simp [hnext]
  | callOut hfocus hcall hlines hstack hnext =>
      refine h.pass (congrArg _ hlines) (fun f hf => ?_) (by simp [hnext]) (by simp [hnext])
      rw [hstack] at hf
      rcases List.mem_cons.mp hf with rfl | hf
      · exact .inr rfl
      · exact .inl hf
  | endStream hfocus hlines hstack hnext =>
      refine h.pass (congrArg _ hlines) (fun f hf => ?_)
        (fun l p s => hnext ▸ sourceSignal_ne_tap _ l p _ s)
        fun l p context => hnext ▸ sourceSignal_ne_join _ l p _ context
      rw [hstack] at hf
      rcases List.mem_cons.mp hf with rfl | hf
      · exact .inr rfl
      · exact .inl hf
  | ended hfocus hstack hlines hrest hnext =>
      exact h.pass (congrArg _ hlines)
        (fun f hf => .inl (hstack ▸ List.mem_cons_of_mem _ (hrest ▸ hf)))
        (fun l p s => hnext ▸ sourceSignal_ne_tap _ l p _ s)
        fun l p context => hnext ▸ sourceSignal_ne_join _ l p _ context
  | startEmission hfocus hlines hstack hnext =>
      exact h.pass hlines (fun f hf => .inl (hstack ▸ hf))
        (fun l p s => hnext ▸ sourceSignal_ne_tap _ l p _ s)
        fun l p context => hnext ▸ sourceSignal_ne_join _ l p _ context
  | emit hemitting hlines hframe hstack hnext =>
      refine h.pass hlines (fun f hf => ?_)
        (fun l p s => hnext ▸ sourceSignal_ne_tap _ l p _ s)
        fun l p context => hnext ▸ sourceSignal_ne_join _ l p _ context
      rw [hstack] at hf
      rcases List.mem_cons.mp hf with rfl | hf
      · rcases hframe with ⟨n, last, rfl⟩ | rfl <;> exact .inr rfl
      · exact .inl (emitting_stack hemitting f hf)
  | loop hemitting hlines hstack hnext =>
      refine h.pass hlines (fun f hf => .inl ?_) (by simp [hnext]) (by simp [hnext])
      rw [hstack] at hf
      rcases hemitting with hemitting | ⟨position, c, -, hsame⟩
      · exact emitting_stack hemitting f hf
      · exact hsame ▸ hf
  | idle hfocus hcall hclient hlines hstack hnext =>
      exact h.pass hlines (fun f hf => .inl (hstack ▸ hf)) (by simp [hnext]) (by simp [hnext])
  | pop hfocus hstack hframe hlines hrest hnext =>
      exact h.pass hlines (fun f hf => .inl (hstack ▸ List.mem_cons_of_mem _ (hrest ▸ hf)))
        (by simp [hnext]) (by simp [hnext])
  | handOver hfocus hstack hlines hsame hnext =>
      exact h.pass (congrArg _ hlines) (fun f hf => .inl (hsame ▸ hf)) (by simp [hnext])
        (by simp [hnext])

theorem subscribe (h : S.Assembled P) {client : Client}
    (hlines : U.lines = (addLine P S client).lines) (hstack : U.stack = S.stack)
    (hnext : U.focus = .call (.join S.lines.length P.depth client.context)) : U.Assembled P := by
  have htaps : ∀ l p, U.tap? l p = S.tap? l p := fun l p =>
    (tap?_eq hlines l p).trans (addLine_tap? client l p)
  have hcount : U.lines.length = S.lines.length + 1 := by
    rw [hlines]
    simp [addLine]
  refine h.keep ?_ (by omega) (fun l p => by rw [htaps]) (fun f hf => .inl (hstack ▸ hf))
    (by simp [hnext]) ?_
  · intro l hl
    rw [hlines] at hl
    rcases List.mem_append.mp hl with hl | hl
    · exact h.lengths l hl
    · rw [List.mem_singleton.mp hl]
      simp [Plan.depth]
  · intro l p context hcall
    rw [hnext] at hcall
    cases hcall
    constructor
    · omega
    · exact Nat.le_refl _
    · intro place _
      rw [htaps, tap?, List.getElem?_eq_none (Nat.le_refl _)]
      rfl
    · intro place hle hlt
      exact absurd hlt (Nat.not_lt.mpr hle)
    · intro q f hmem
      have hstarted := (h.refusing _ q f (hstack ▸ hmem)).1
      exact Nat.lt_irrefl _ hstarted

theorem move (h : S.Assembled P) (hmove : Moved P S U m) : U.Assembled P := by
  cases hmove with
  | subscribe hturn hlines hstack hnext => exact h.subscribe hlines hstack hnext
  | signal hturn hlines hstack hnext =>
      exact h.pass (congrArg _ hlines) (fun f hf => .inl (hstack ▸ hf))
        (fun l p s => hnext ▸ sourceSignal_ne_tap _ l p _ s)
        fun l p context => hnext ▸ sourceSignal_ne_join _ l p _ context
  | control hturn hreceived hlines hstack hnext =>
      exact h.pass (congrArg _ hlines) (fun f hf => .inl (hstack ▸ hf)) (by simp [hnext])
        (by simp [hnext])
  | direct hturn hlines hstack hnext =>
      exact h.pass (congrArg _ hlines) (fun f hf => .inl (hstack ▸ hf)) (by simp [hnext])
        (by simp [hnext])
  | answer hturn hstack hlines hrest hnext =>
      exact h.pass (congrArg _ hlines)
        (fun f hf => .inl (hstack ▸ List.mem_cons_of_mem _ (hrest ▸ hf))) (by simp [hnext])
        (by simp [hnext])

theorem start (ambient : Context) : (State.start P ambient).Assembled P := by
  constructor <;> simp [State.start, tap?]

theorem startTap {p : TapPlan σ α ε} (hplan : P.taps = [p]) (client : Client) (listener : σ)
    (context ambient : Context) :
    (State.startTap P client listener context ambient).Assembled P := by
  have hdepth : P.depth = 1 := by rw [Plan.depth, hplan]; rfl
  constructor
  · intro l hl
    rw [List.mem_singleton.mp hl, hdepth]
    rfl
  · intro line place q _ hlt hq
    omega
  · simp [State.startTap, State.start]
  · simp [State.startTap, State.start]
  · simp [State.startTap, State.start]
  · simp [State.startTap, State.start]

theorem run {history : List (Entry α ε)} (h : S.Assembled P) (hrun : Run P S history U) :
    U.Assembled P := by
  induction hrun with
  | refl => exact h
  | step _ hstep ih => exact ih.step (step?_stepped hstep)
  | move _ hmove ih => exact ih.move (move?_moved hmove)

end State.Assembled

end Wiretap

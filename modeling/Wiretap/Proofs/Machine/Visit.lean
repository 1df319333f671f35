import Wiretap.Proofs.Machine.Ambient

/-!
# The ambient context in a run

Taps install their scopes and release them again in the midst of calls of other taps, and whoever is
outside may change the ambient context, too, when it has the turn. If everybody outside puts back
what it found, then the calls that wait are so many layers: each of them finds the ambient context
as it left it, and a call that returns leaves what there was when it was made.
-/

namespace Wiretap

variable {K : Kinds} {σ α ε : Type}

/-- From `S` a run in which the outside also changes the ambient context when it has the turn, and
puts back what a callback found before the callback is over. The contexts are those that the
callbacks in progress found, the innermost first. No step is made from a state that is not
`inside`. -/
inductive Visit (P : Plan σ α ε) (inside : State σ α ε → Prop) (S : State σ α ε) :
    List (Entry α ε) → List Context → State σ α ε → Prop
  /-- Nothing happens. -/
  | refl : Visit P inside S [] [] S
  /-- The machine makes a step. -/
  | step {history : List (Entry α ε)} {found : List Context} {T U : State σ α ε}
    {events : List (Event α ε)} :
    Visit P inside S history found T → inside T → T.step? P = some (U, events) →
    Visit P inside S (history ++ events.map .event) ((called events).map Prod.snd ++ found) U
  /-- The outside makes a call. -/
  | move {history : List (Entry α ε)} {found : List Context} {T U : State σ α ε} {m : Move α ε} :
    Visit P inside S history found T → (∀ b, m ≠ .answer b) → T.move? P m = some U →
    Visit P inside S (history ++ [.move m]) found U
  /-- A callback is over. -/
  | answer {history : List (Entry α ε)} {found : List Context} {T U : State σ α ε} {b : Bool} :
    Visit P inside S history (T.ambient :: found) T → T.move? P (.answer b) = some U →
    Visit P inside S (history ++ [.move (.answer b)]) found U
  /-- The outside changes the ambient context. -/
  | change {history : List (Entry α ε)} {found : List Context} {T : State σ α ε} {b : Bool}
    (ambient : Context) : Visit P inside S history found T → T.focus = .outside b →
    Visit P inside S history found { T with ambient }

/-- Has a call just returned? -/
def Focus.isBack : Focus α ε → Bool
  | .back _ => true
  | _ => false

theorem Focus.isBack_iff {focus : Focus α ε} : focus.isBack = true ↔ ∃ b, focus = .back b := by
  cases focus <;> simp [Focus.isBack]

/-- Is a call to be made? -/
def Focus.isCall : Focus α ε → Bool
  | .call _ => true
  | _ => false

namespace State

variable {P : Plan σ α ε} {S T U : State σ α ε} {line place : Nat} {events : List (Event α ε)}

/-! ## The calls that wait -/

/-- The calls that wait above the frames `base` are so many layers: a callback has found the context
that the frame below it waits with, and what any other frame leaves when it returns is that context.
`found` are the contexts that the callbacks have found, the innermost first. The context below all
layers is `bottom`, if that is known. -/
inductive Layered (P : Plan σ α ε) (S : State σ α ε) (base : List (Frame α ε))
    (bottom : Option Context) : List (Frame α ε) → List Context → Context → Prop
  | base {ambient : Context} (hbottom : ∀ b, bottom = some b → ambient = b) :
    Layered P S base bottom base [] ambient
  | callback {c : Callback α ε} {rest : List (Frame α ε)} {found : List Context}
    {ambient : Context} (now : Context) :
    Layered P S base bottom rest found ambient →
    Layered P S base bottom (.outside c :: rest) (ambient :: found) now
  | frame {f : Frame α ε} {rest : List (Frame α ε)} {found : List Context} {ambient : Context}
    (hf : f.callback? = none) (hfits : S.FrameFits P f ambient) :
    Layered P S base bottom rest found (f.release ambient) →
    Layered P S base bottom (f :: rest) found ambient

namespace Layered

variable {base stack rest : List (Frame α ε)} {bottom : Option Context} {found : List Context}
  {ambient : Context} {f : Frame α ε}

theorem length_le (h : Layered P S base bottom stack found ambient) :
    base.length ≤ stack.length := by
  induction h with
  | base => exact Nat.le_refl _
  | callback now _ ih => exact Nat.le_succ_of_le ih
  | frame hf hfits _ ih => exact Nat.le_succ_of_le ih

theorem ne_base {c : Frame α ε} (h : Layered P S base bottom stack found ambient) :
    c :: stack ≠ base := by
  rintro rfl
  exact absurd h.length_le (Nat.not_le.mpr (Nat.lt_succ_self _))

/-- At the bottom no callback is in progress. -/
theorem at_base (h : Layered P S base bottom stack found ambient) (hstack : stack = base) :
    found = [] ∧ ∀ b, bottom = some b → ambient = b := by
  cases h with
  | base hbottom => exact ⟨rfl, hbottom⟩
  | callback now hrest => exact absurd hstack hrest.ne_base
  | frame hf hfits hrest => exact absurd hstack hrest.ne_base

theorem eq_base (h : Layered P S base bottom stack found ambient)
    (hlength : stack.length = base.length) : stack = base := by
  cases h with
  | base => rfl
  | callback now hrest => exact absurd hlength (Nat.ne_of_gt (Nat.lt_succ_of_le hrest.length_le))
  | frame hf hfits hrest =>
      exact absurd hlength (Nat.ne_of_gt (Nat.lt_succ_of_le hrest.length_le))

theorem of_frame (h : Layered P S base bottom (f :: rest) found ambient) (hbase : f :: rest ≠ base)
    (hf : f.callback? = none) :
    S.FrameFits P f ambient ∧ Layered P S base bottom rest found (f.release ambient) := by
  cases h with
  | base => exact absurd rfl hbase
  | callback => cases hf
  | frame _ hfits hrest => exact ⟨hfits, hrest⟩

theorem of_callback {c : Callback α ε}
    (h : Layered P S base bottom (.outside c :: rest) found ambient)
    (hbase : .outside c :: rest ≠ base) :
    ∃ below older, found = below :: older ∧ Layered P S base bottom rest older below := by
  cases h with
  | base => exact absurd rfl hbase
  | callback now hrest => exact ⟨_, _, rfl, hrest⟩
  | frame hf => cases hf

/-- What fits the frames that wait still fits them. -/
theorem mono (h : Layered P S base bottom stack found ambient)
    (hkeep : ∀ f ∈ stack, ∀ ambient, S.FrameFits P f ambient → U.FrameFits P f ambient) :
    Layered P U base bottom stack found ambient := by
  induction h with
  | base hbottom => exact .base hbottom
  | callback now _ ih => exact .callback now (ih fun f hf => hkeep f (List.mem_cons_of_mem _ hf))
  | frame hf hfits _ ih =>
      exact .frame hf (hkeep _ List.mem_cons_self _ hfits)
        (ih fun f hf => hkeep f (List.mem_cons_of_mem _ hf))

/-- A frame that is no callback is put on. -/
theorem covers (h : Layered P U base bottom stack found ambient)
    (hcovers : Covers P U stack ambient)
    (hcallbacks : U.callbacks = stack.filterMap Frame.callback?) :
    Layered P U base bottom U.stack found U.ambient := by
  cases hcovers with
  | bare hstack hambient =>
      rw [hstack, hambient]
      exact h
  | @frame f hstack hambient hfits =>
      rw [hstack]
      refine .frame ?_ hfits (hambient.symm ▸ h)
      have hlength := congrArg List.length hcallbacks
      rw [callbacks, hstack] at hlength
      cases hf : f.callback? with
      | none => rfl
      | some c => simp [hf] at hlength

end Layered

/-- The calls that wait are layers, and the outside has the turn in a callback or below all layers,
where nothing is known. -/
structure Poised (P : Plan σ α ε) (base : List (Frame α ε)) (bottom : Option Context)
    (S : State σ α ε) (found : List Context) : Prop where
  layered : Layered P S base bottom S.stack found S.ambient
  turn : ∀ b, S.focus = .outside b →
    (∃ c rest, S.stack = .outside c :: rest ∧ S.stack ≠ base) ∨ S.stack = base ∧ bottom = none

/-- The context of a tap stays. -/
theorem step_context (hassembled : S.Assembled P) (hstep : Stepped P S U events) {t : Tap σ}
    (htap : S.tap? line place = some t) :
    ∃ u, U.tap? line place = some u ∧ u.context = t.context := by
  rcases step_progress hassembled hstep line place with
    ⟨hsame, -, -⟩ | ⟨hplan, hthen, hnow, hturn⟩ | ⟨hfocus, -, -, -, -⟩ | ⟨-, hsame, -, -, -⟩
  · exact ⟨t, hsame.trans htap, rfl⟩
  · refine ⟨_, hnow, ?_⟩
    rw [htap, Option.some.injEq] at hthen
    subst hthen
    exact (hturn .any [] fun _ _ => trivial).context
  · have hvacant := (hassembled.joining _ _ _ hfocus).before place (Nat.lt_succ_self place)
    rw [hvacant] at htap
    cases htap
  · exact ⟨t, hsame.trans htap, rfl⟩

theorem Fits.step {ambient : Context} (h : S.Fits P line place ambient)
    (hassembled : S.Assembled P) (hstep : Stepped P S U events)
    (hthere : (S.tap? line place).isSome = true) : U.Fits P line place ambient := by
  obtain ⟨t, htap⟩ := Option.isSome_iff_exists.mp hthere
  obtain ⟨u, hnow, hcontext⟩ := step_context hassembled hstep htap
  exact h.of_tap htap hnow hcontext

theorem Fits.move {ambient : Context} {m : Move α ε} (h : S.Fits P line place ambient)
    (hmove : Moved P S U m) (hthere : (S.tap? line place).isSome = true) :
    U.Fits P line place ambient := by
  obtain ⟨t, htap⟩ := Option.isSome_iff_exists.mp hthere
  obtain ⟨hsame, -, -⟩ := move_keeps hmove (lt_of_tap? hthere) place
  exact h.of_tap htap (hsame.trans htap) rfl

/-- When a step gives the turn to the outside, it has been called, or it has had the turn before. -/
theorem step_turn (hstep : Stepped P S U events) {b : Bool} (hnow : U.focus = .outside b) :
    (∃ c, U.stack = .outside c :: S.stack) ∨ (∃ b, S.focus = .back b) ∧ U.stack = S.stack ∧
      (S.stack = [] ∨ ∃ c rest, S.stack = .outside c :: rest) := by
  have hturned : ∀ {rest : List (Frame α ε)} {l p : Nat} {turn : Tap.Turn σ α ε},
      Turned P S rest l p turn U → False := by
    intro rest l p turn hturned
    rcases hturned.focus with ⟨b, hnext⟩ | ⟨s, hnext⟩ | ⟨handle, c, hnext⟩ <;> simp [hnext] at hnow
  cases hstep with
  | serve hfocus hinput hplan htap ht => exact (hturned ht).elim
  | resume hfocus hstack hplan htap ht => exact (hturned ht).elim
  | setUp hfocus hplan hlines hstack hnext => simp [hnext] at hnow
  | refuse hfocus hplan hlines hstack hnext => simp [hnext] at hnow
  | explain hfocus hstack hlines hrest hnext => simp [hnext] at hnow
  | hear hfocus hlines hstack hnext => exact .inl ⟨_, hstack⟩
  | callOut hfocus hcall hlines hstack hnext => exact .inl ⟨_, hstack⟩
  | endStream hfocus hlines hstack hnext => simp [hnext] at hnow
  | ended hfocus hstack hlines hrest hnext => simp [hnext] at hnow
  | startEmission hfocus hlines hstack hnext => simp [hnext] at hnow
  | emit hemitting hlines hframe hstack hnext => simp [hnext] at hnow
  | loop hemitting hlines hstack hnext => simp [hnext] at hnow
  | idle hfocus hcall hclient hlines hstack hnext => simp [hnext] at hnow
  | pop hfocus hstack hframe hlines hrest hnext => simp [hnext] at hnow
  | handOver hfocus hstack hlines hsame hnext => exact .inr ⟨⟨_, hfocus⟩, hsame, hstack⟩

theorem move?_ambient {m : Move α ε} (h : S.move? P m = some U) : U.ambient = S.ambient := by
  unfold move? at h
  split at h
  · cases h
    rfl
  · split at h
    · cases h
      rfl
    · cases h
  · obtain ⟨handle, -, rfl⟩ := Option.map_eq_some_iff.mp h
    rfl
  · cases h
    rfl
  · split at h
    · cases h
      rfl
    · cases h
  · cases h

namespace Poised

variable {base : List (Frame α ε)} {bottom : Option Context} {found : List Context}

/-- A step adds a layer, or takes one off, and then taps at work find what fits them. No step is
made below all layers, unless there is nothing below them. -/
theorem step (h : S.Poised P base bottom found) (hassembled : S.Assembled P)
    (hstep : S.step? P = some (U, events))
    (hbase : ∀ b, S.focus = .back b → S.stack = base → base = [] ∧ bottom = none) :
    U.Poised P base bottom ((called events).map Prod.snd ++ found) ∧ U.WorkFits P events := by
  have hstepped := step?_stepped hstep
  have hkeep : ∀ f ∈ S.stack, ∀ ambient, S.FrameFits P f ambient → U.FrameFits P f ambient := by
    rintro f hf ambient hfits line place guard r rfl
    have hthere := hassembled.waiting line place guard r hf
    exact (hfits line place guard r rfl).step hassembled hstepped hthere
  have hturn : ∀ b, U.focus = .outside b →
      (∃ c rest, U.stack = .outside c :: rest ∧ U.stack ≠ base) ∨
        U.stack = base ∧ bottom = none := by
    intro b hnow
    rcases step_turn hstepped hnow with ⟨c, hstack⟩ | ⟨⟨b', hback⟩, hsame, hstack⟩
    · refine .inl ⟨c, S.stack, hstack, ?_⟩
      rw [hstack]
      exact h.layered.ne_base
    · rw [hsame]
      by_cases heq : S.stack = base
      · exact .inr ⟨heq, (hbase b' hback heq).2⟩
      · rcases hstack with hnil | ⟨c, rest, hstack⟩
        · have hle := h.layered.length_le
          rw [hnil] at hle
          exact absurd (hnil.trans (List.eq_nil_of_length_eq_zero (Nat.le_zero.mp hle)).symm) heq
        · exact .inl ⟨c, rest, hstack, heq⟩
  -- A call adds one layer at most, and that may be a callback.
  have hmade : Covers P U S.stack S.ambient →
      U.Poised P base bottom ((called events).map Prod.snd ++ found) := by
    intro hcovers
    refine ⟨?_, hturn⟩
    rcases step?_rings hstep with ⟨hcalled, hcallbacks⟩ | ⟨callback, hrings, -⟩
    · have hcalled : called events = [] := hcalled
      rw [hcalled]
      exact (h.layered.mono hkeep).covers hcovers hcallbacks
    · have hcalled : called events = [(callback, S.ambient)] := hrings.called
      have hstack : U.stack = .outside callback :: S.stack := hrings.stack
      rw [hcalled, hstack]
      exact .callback U.ambient (h.layered.mono hkeep)
  cases step?_shift hassembled hstep with
  | made hfocus hcovers hworks => exact ⟨hmade hcovers, hworks⟩
  | @returned b f rest hfocus hstack hf hkeeps hreturned =>
      have hne : f :: rest ≠ base := by
        intro heq
        rw [(hbase b hfocus (hstack.trans heq)).1] at heq
        cases heq
      have hlayered := h.layered
      rw [hstack] at hlayered
      obtain ⟨hfits, hrest⟩ := hlayered.of_frame hne hf
      obtain ⟨hcovers, hworks⟩ := hreturned hfits
      refine ⟨⟨?_, hturn⟩, hworks⟩
      have hbelow := hrest.mono fun g hg => hkeep g (hstack ▸ List.mem_cons_of_mem f hg)
      have hcalled : called events = [] := hkeeps.1
      have hcallbacks : U.callbacks = S.callbacks := hkeeps.2
      rw [hcalled]
      refine hbelow.covers hcovers (hcallbacks.trans ?_)
      rw [callbacks, hstack, List.filterMap_cons_none hf]
  | handedOver hfocus hnow hstack hevents =>
      subst hnow
      rw [hevents]
      exact ⟨⟨h.layered.mono fun f _ _ hfits => hfits, hturn⟩, workFits_nil⟩

/-- What fits a frame that waits fits it after a move. -/
theorem frameFits_move {m : Move α ε} (hassembled : S.Assembled P) (hmove : Moved P S U m)
    {f : Frame α ε} (hf : f ∈ S.stack) {ambient : Context} (h : S.FrameFits P f ambient) :
    U.FrameFits P f ambient := by
  rintro line place guard r rfl
  exact (h line place guard r rfl).move hmove (hassembled.waiting line place guard r hf)

/-- The outside makes a call. -/
theorem call {m : Move α ε} (h : S.Poised P base bottom found) (hassembled : S.Assembled P)
    (hmove : S.move? P m = some U) (hm : ∀ b, m ≠ .answer b) : U.Poised P base bottom found := by
  have hmoved := move?_moved hmove
  have hsame : U.stack = S.stack ∧ ∀ b, U.focus ≠ .outside b := by
    cases hmoved with
    | subscribe hturn hlines hstack hnext => exact ⟨hstack, by simp [hnext]⟩
    | signal hturn hlines hstack hnext => exact ⟨hstack, by simp [hnext]⟩
    | control hturn hreceived hlines hstack hnext => exact ⟨hstack, by simp [hnext]⟩
    | direct hturn hlines hstack hnext => exact ⟨hstack, by simp [hnext]⟩
    | answer => exact absurd rfl (hm _)
  refine ⟨?_, fun b hnow => absurd hnow (hsame.2 b)⟩
  rw [hsame.1, move?_ambient hmove]
  exact h.layered.mono fun f hf _ => frameFits_move hassembled hmoved hf

/-- A callback is over, with the ambient context that it has found. -/
theorem answer {b : Bool} (h : S.Poised P base bottom (S.ambient :: found))
    (hassembled : S.Assembled P) (hmove : S.move? P (.answer b) = some U) :
    U.Poised P base bottom found := by
  have hmoved := move?_moved hmove
  have hambient := move?_ambient hmove
  have hkeep : ∀ f ∈ S.stack, ∀ ambient, S.FrameFits P f ambient → U.FrameFits P f ambient :=
    fun f hf _ => frameFits_move hassembled hmoved hf
  cases hmoved with
  | @answer b b' b'' callback rest hturn hstack hlines hrest hnext =>
      have hlayered := h.layered
      have hne : S.stack ≠ base := by
        intro heq
        cases (hlayered.at_base heq).1
      rw [hstack] at hlayered hne hkeep
      obtain ⟨below, older, hfound, hunder⟩ := hlayered.of_callback hne
      obtain ⟨rfl, rfl⟩ := List.cons.inj hfound
      refine ⟨?_, by simp [hnext]⟩
      rw [hrest, hambient]
      exact hunder.mono fun f hf => hkeep f (List.mem_cons_of_mem _ hf)

/-- The outside changes the ambient context while it has the turn. -/
theorem change (h : S.Poised P base bottom found) {b : Bool} (hfocus : S.focus = .outside b)
    (ambient : Context) : State.Poised P base bottom { S with ambient } found := by
  have hkeep : ∀ f ∈ S.stack, ∀ context, S.FrameFits P f context →
      State.FrameFits P { S with ambient } f context := fun _ _ _ hfits => hfits
  refine ⟨?_, h.turn⟩
  have hlayered := h.layered
  rcases h.turn b hfocus with ⟨c, rest, hstack, hne⟩ | ⟨hstack, hbottom⟩
  · change Layered P _ base bottom S.stack found ambient
    rw [hstack] at hlayered hne hkeep ⊢
    obtain ⟨below, older, rfl, hunder⟩ := hlayered.of_callback hne
    exact .callback ambient (hunder.mono fun f hf => hkeep f (List.mem_cons_of_mem _ hf))
  · change Layered P _ base bottom S.stack found ambient
    obtain ⟨rfl, -⟩ := hlayered.at_base hstack
    subst hbottom hstack
    exact .base nofun

end Poised

/-- The call in focus of `S` has returned. -/
def Returned (S T : State σ α ε) : Prop := T.stack = S.stack ∧ ∃ b, T.focus = .back b

end State

namespace Visit

variable {P : Plan σ α ε} {inside : State σ α ε → Prop} {S U : State σ α ε}
  {history : List (Entry α ε)} {found : List Context}

theorem assembled (h : S.Assembled P) (hvisit : Visit P inside S history found U) :
    U.Assembled P := by
  induction hvisit with
  | refl => exact h
  | step _ _ hstep ih => exact ih.step (State.step?_stepped hstep)
  | move _ _ hmove ih => exact ih.move (State.move?_moved hmove)
  | answer _ hmove ih => exact ih.move (State.move?_moved hmove)
  | change ambient _ hfocus ih =>
      exact ih.pass rfl (fun f hf => .inl hf) (by simp [hfocus]) (by simp [hfocus])

theorem poised {base : List (Frame α ε)} {bottom : Option Context} (hassembled : S.Assembled P)
    (h : S.Poised P base bottom [])
    (hinside : ∀ T b, inside T → T.focus = .back b → T.stack = base → base = [] ∧ bottom = none)
    (hvisit : Visit P inside S history found U) : U.Poised P base bottom found := by
  induction hvisit with
  | refl => exact h
  | step hvisit hin hstep ih =>
      exact (ih.step (hvisit.assembled hassembled) hstep fun b => hinside _ b hin).1
  | move hvisit hm hmove ih => exact ih.call (hvisit.assembled hassembled) hmove hm
  | answer hvisit hmove ih => exact ih.answer (hvisit.assembled hassembled) hmove
  | change ambient _ hfocus ih => exact ih.change hfocus ambient

/-- While a call is in progress the calls that wait are layers above those that have waited when it
was made. -/
theorem poised_of_call (hassembled : S.Assembled P) {c : Call α ε} (hfocus : S.focus = .call c)
    (hvisit : Visit P (fun T => ¬S.Returned T) S history found U) :
    U.Poised P S.stack (some S.ambient) found := by
  have hstart : S.Poised P S.stack (some S.ambient) [] := by
    refine ⟨.base fun b hb => Option.some.inj hb, fun b hturn => ?_⟩
    rw [hfocus] at hturn
    cases hturn
  exact hvisit.poised hassembled hstart fun T b hin hback hstack => (hin ⟨hstack, b, hback⟩).elim

/-- A call that returns leaves the ambient context that it was made with. -/
theorem restores (hassembled : S.Assembled P) {c : Call α ε} (hfocus : S.focus = .call c)
    (hvisit : Visit P (fun T => ¬S.Returned T) S history found U) (hreturned : S.Returned U) :
    U.ambient = S.ambient :=
  ((hvisit.poised_of_call hassembled hfocus).layered.at_base hreturned.1).2 _ rfl

/-- A call has returned when as many calls wait as when it was made. -/
theorem returned (hassembled : S.Assembled P) {c : Call α ε} (hfocus : S.focus = .call c)
    (hvisit : Visit P (fun T => ¬S.Returned T) S history found U)
    (hlength : U.stack.length = S.stack.length) (hback : U.focus.isBack = true) :
    S.Returned U := by
  exact ⟨(hvisit.poised_of_call hassembled hfocus).layered.eq_base hlength,
    Focus.isBack_iff.mp hback⟩

/-! ## Computing a visit -/

/-- What may come next in a visit. -/
inductive Errand [Kinds] (α ε : Type)
  /-- The machine steps for as long as it can and is inside. -/
  | wait
  /-- The outside makes a move. -/
  | move (m : Move α ε)
  /-- The outside changes the ambient context. -/
  | change (ambient : Context)

/-- The history so far, what the callbacks in progress have found, and the state. -/
abbrev Progress [Kinds] (σ α ε : Type) : Type := List (Entry α ε) × List Context × State σ α ε

/-- Step at most `fuel` times while the check passes. -/
def wait (P : Plan σ α ε) (check : State σ α ε → Bool) :
    Nat → Progress σ α ε → Progress σ α ε
  | 0, now => now
  | fuel + 1, (history, found, T) =>
    match check T, T.step? P with
    | true, some (U, events) =>
      wait P check fuel
        (history ++ events.map .event, (called events).map Prod.snd ++ found, U)
    | _, _ => (history, found, T)

/-- A move of the outside, if it is possible and leaves what a callback has found. -/
def move? (P : Plan σ α ε) (m : Move α ε) : Progress σ α ε → Option (Progress σ α ε)
  | (history, found, T) =>
    match m, found with
    | .answer b, before :: found =>
      if before = T.ambient then
        (T.move? P (.answer b)).map fun U => (history ++ [.move (.answer b)], found, U)
      else none
    | .answer _, [] => none
    | m, found => (T.move? P m).map fun U => (history ++ [.move m], found, U)

/-- Run the errands one after the other. -/
def run? (P : Plan σ α ε) (check : State σ α ε → Bool) (fuel : Nat) :
    List (Errand α ε) → Progress σ α ε → Option (Progress σ α ε)
  | [], now => some now
  | .wait :: errands, now => run? P check fuel errands (wait P check fuel now)
  | .move m :: errands, now => (move? P m now).bind (run? P check fuel errands)
  | .change ambient :: errands, (history, found, T) =>
    match T.focus with
    | .outside _ => run? P check fuel errands (history, found, { T with ambient })
    | _ => none

/-- Is more going on than when the call in focus of `S` was made? -/
def isUnderWay (S T : State σ α ε) : Bool :=
  decide (S.stack.length < T.stack.length) || !T.focus.isBack

theorem not_returned_of_isUnderWay {T : State σ α ε} (h : isUnderWay S T = true) :
    ¬S.Returned T := by
  rintro ⟨hstack, b, hback⟩
  simp [isUnderWay, hstack, hback, Focus.isBack] at h

variable {check : State σ α ε → Bool} {now later : Progress σ α ε}

theorem of_wait (hcheck : ∀ T, check T = true → inside T) (fuel : Nat)
    (h : Visit P inside S now.1 now.2.1 now.2.2) :
    Visit P inside S (wait P check fuel now).1 (wait P check fuel now).2.1
      (wait P check fuel now).2.2 := by
  induction fuel generalizing now with
  | zero => exact h
  | succ fuel ih =>
      obtain ⟨history, found, T⟩ := now
      unfold wait
      split
      next htrue hstep => exact ih (h.step (hcheck T htrue) hstep)
      next => exact h

theorem of_move? {m : Move α ε} (h : Visit P inside S now.1 now.2.1 now.2.2)
    (hmove : move? P m now = some later) : Visit P inside S later.1 later.2.1 later.2.2 := by
  obtain ⟨history, found, T⟩ := now
  cases m with
  | answer b =>
      cases found with
      | nil => cases hmove
      | cons before older =>
          simp only [move?] at hmove
          split at hmove
          next heq =>
            obtain ⟨U, hU, rfl⟩ := Option.map_eq_some_iff.mp hmove
            subst heq
            exact h.answer hU
          next => cases hmove
  | _ =>
      obtain ⟨U, hU, rfl⟩ := Option.map_eq_some_iff.mp hmove
      exact h.move nofun hU

theorem of_run? (hcheck : ∀ T, check T = true → inside T) {fuel : Nat}
    {errands : List (Errand α ε)} (h : Visit P inside S now.1 now.2.1 now.2.2)
    (hrun : run? P check fuel errands now = some later) :
    Visit P inside S later.1 later.2.1 later.2.2 := by
  induction errands generalizing now with
  | nil =>
      cases hrun
      exact h
  | cons errand errands ih =>
      cases errand with
      | wait => exact ih (h.of_wait hcheck fuel) hrun
      | move m =>
          obtain ⟨next, hmove, hnext⟩ := Option.bind_eq_some_iff.mp hrun
          exact ih (h.of_move? hmove) hnext
      | change ambient =>
          obtain ⟨history, found, T⟩ := now
          unfold run? at hrun
          split at hrun
          next b hfocus =>
            have hchanged := h.change ambient hfocus
            exact ih hchanged hrun
          next => cases hrun

/-- If what comes of the errands passes a test, then there is a visit that does. -/
theorem of_errands (hcheck : ∀ T, check T = true → inside T) (fuel : Nat)
    (errands : List (Errand α ε)) (test : Progress σ α ε → Bool)
    (h : (run? P check fuel errands ([], [], S)).any test = true) :
    ∃ history found U, Visit P inside S history found U ∧ test (history, found, U) = true := by
  obtain ⟨⟨history, found, U⟩, hrun, htest⟩ := (Option.any_eq_true _ _).mp h
  have hstart : Visit P inside S ([] : List (Entry α ε)) [] S := .refl
  exact ⟨history, found, U, hstart.of_run? hcheck hrun, htest⟩

end Visit

end Wiretap

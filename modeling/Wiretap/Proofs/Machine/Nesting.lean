import Wiretap.Proofs.Machine.Handles
import Wiretap.Proofs.Tap.Withdrawal

/-!
# How calls nest

In a play the stack of calls that wait says what can be called next. While a handle is being
cancelled the machine goes up the line as long as it meets taps, and an error that this brings about
goes down the line, past the taps that wait for the cancellation; only when it has reached the
client, and no tap waits any more, is everything possible again. So a tap that waits for a
cancellation hears nothing but an error, and it hears that from the tap before it.
-/

namespace Wiretap

variable {K : Kinds} {σ α ε : Type}

/-- What the machine is about, as far as the calls that wait tell. -/
inductive Errand
  /-- Anything. -/
  | free
  /-- Somebody outside has been told something by a handle. -/
  | away
  /-- The receiver at a position cancels its handle. -/
  | cancel (line position : Nat)
  /-- The receiver at a position gets an error that came of a cancellation. -/
  | error (line position : Nat)

namespace Errand

/-- Can the tap at a place have work on this errand? -/
def Employs (line place : Nat) : Errand → Prop
  | free => True
  | away => False
  | cancel l position => l = line ∧ position = place + 1
  | error l position => l = line ∧ position = place

/-- Can the tap at a place be waiting for a cancellation on this errand? -/
def Detains (line place : Nat) : Errand → Prop
  | free => False
  | away => True
  | cancel l position => l = line ∧ position ≤ place
  | error l position => l = line ∧ position ≤ place

end Errand

/-- A frame that is only pushed when anything can happen. -/
def Frame.isCalm : Frame α ε → Bool
  | .tap .. | .outside (.client ..) | .outside (.handle ..) => false
  | _ => true

/-- These calls can wait, the innermost first, while the machine is on this errand. -/
inductive Nested (P : Plan σ α ε) : List (Frame α ε) → Errand → Prop
  | nil : Nested P [] .free
  /-- A tap cancels a handle. -/
  | waiting {line place : Nat} {guard : Guard} {r : Tap.Resume α ε} {rest : List (Frame α ε)}
    {errand : Errand} (hrest : Nested P rest errand) (hemploys : errand.Employs line place)
    (hplace : place < P.depth) (hwaits : r.waits = true)
    (hwithdraws : errand = .free ∨ r.withdraws = true) :
    Nested P (.tap line place guard r :: rest) (.cancel line place)
  /-- A tap calls a neighbour when anything can happen. -/
  | passing {line place : Nat} {guard : Guard} {r : Tap.Resume α ε} {rest : List (Frame α ε)}
    (hrest : Nested P rest .free) (hwaits : r.waits = false) :
    Nested P (.tap line place guard r :: rest) .free
  /-- A tap sends its receiver an error because of a cancellation. -/
  | retreating {line place : Nat} {guard : Guard} {r : Tap.Resume α ε} {rest : List (Frame α ε)}
    {errand : Errand} (hrest : Nested P rest errand) (hemploys : errand.Employs line place)
    (hwaits : r.waits = false) (hwithdraws : r.withdraws = true) :
    Nested P (.tap line place guard r :: rest) (.error line (place + 1))
  /-- A client has got a signal; whoever waits then has been passed by an error. -/
  | client {line : Nat} {s : Signal α (TapError ε)} {rest : List (Frame α ε)} {errand : Errand}
    (hrest : Nested P rest errand)
    (hreached : errand = .free ∨ ∃ position, errand = .error line position ∧ P.depth ≤ position) :
    Nested P (.outside (.client line s) :: rest) .free
  /-- A handle outside is in use. -/
  | away {id : Nat} {c : Control} {rest : List (Frame α ε)} {errand : Errand}
    (hrest : Nested P rest errand) : Nested P (.outside (.handle id c) :: rest) .away
  /-- Any other frame. -/
  | calm {f : Frame α ε} {rest : List (Frame α ε)} (hrest : Nested P rest .free)
    (hcalm : f.isCalm = true) : Nested P (f :: rest) .free

namespace Nested

variable {P : Plan σ α ε} {stack rest : List (Frame α ε)} {errand : Errand} {line place : Nat}

/-- A tap that waits for a cancellation can only be met by an error. -/
theorem detains (h : Nested P stack errand) :
    ∀ r ∈ (stack.filterMap (Frame.resume? line place)).head?, r.waits = true →
      errand.Detains line place ∧ place < P.depth := by
  induction h with
  | nil => simp
  | @waiting l p guard r rest errand hrest hemploys hplace hwaits hwithdraws ih =>
      intro r' hr' hwaits'
      by_cases hhere : l = line ∧ p = place
      · obtain ⟨rfl, rfl⟩ := hhere
        exact ⟨⟨rfl, Nat.le_refl _⟩, hplace⟩
      · rw [List.filterMap_cons_none (by simp [Frame.resume?, hhere])] at hr'
        obtain ⟨hdetains, hinside⟩ := ih r' hr' hwaits'
        refine ⟨?_, hinside⟩
        -- The cancellation moves one place towards the source.
        cases errand with
        | free => exact hdetains.elim
        | away => exact hemploys.elim
        | cancel l' q =>
            obtain ⟨rfl, rfl⟩ := hemploys
            exact ⟨hdetains.1, Nat.le_of_succ_le hdetains.2⟩
        | error l' q =>
            obtain ⟨rfl, rfl⟩ := hemploys
            exact hdetains
  | @passing l p guard r rest hrest hwaits ih =>
      intro r' hr' hwaits'
      by_cases hhere : l = line ∧ p = place
      · rw [List.filterMap_cons_some (b := r) (by simp [Frame.resume?, hhere])] at hr'
        cases hr'
        rw [hwaits] at hwaits'
        cases hwaits'
      · rw [List.filterMap_cons_none (by simp [Frame.resume?, hhere])] at hr'
        exact ih r' hr' hwaits'
  | @retreating l p guard r rest errand hrest hemploys hwaits hwithdraws ih =>
      intro r' hr' hwaits'
      by_cases hhere : l = line ∧ p = place
      · rw [List.filterMap_cons_some (b := r) (by simp [Frame.resume?, hhere])] at hr'
        cases hr'
        rw [hwaits] at hwaits'
        cases hwaits'
      · rw [List.filterMap_cons_none (by simp [Frame.resume?, hhere])] at hr'
        obtain ⟨hdetains, hinside⟩ := ih r' hr' hwaits'
        refine ⟨?_, hinside⟩
        cases errand with
        | free => exact hdetains.elim
        | away => exact hemploys.elim
        | cancel l' q =>
            obtain ⟨rfl, rfl⟩ := hemploys
            exact hdetains
        | error l' q =>
            obtain ⟨rfl, rfl⟩ := hemploys
            obtain ⟨rfl, hle⟩ := hdetains
            -- The error goes on past this tap, so whoever still waits is behind it.
            have hne : q ≠ place := fun heq => hhere ⟨rfl, heq⟩
            exact ⟨rfl, by omega⟩
  | @client l s rest errand hrest hreached ih =>
      intro r' hr' hwaits'
      obtain ⟨hdetains, hinside⟩ := ih r' hr' hwaits'
      rcases hreached with rfl | ⟨position, rfl, hdepth⟩
      · exact hdetains.elim
      · have hle := hdetains.2
        omega
  | away hrest ih =>
      intro r' hr' hwaits'
      exact ⟨trivial, (ih r' hr' hwaits').2⟩
  | @calm f rest hrest hcalm ih =>
      intro r' hr' hwaits'
      have hnone : f.resume? line place = none := by
        cases f with
        | tap => cases hcalm
        | _ => rfl
      rw [List.filterMap_cons_none hnone] at hr'
      exact ih r' hr' hwaits'

/-- The first receiver of a line gets no error that came of a cancellation. -/
theorem error_pos {position : Nat} (h : Nested P stack (.error line position)) : 0 < position := by
  cases h with
  | retreating => exact Nat.succ_pos _

theorem tail_tap {guard : Guard} {r : Tap.Resume α ε}
    (h : Nested P (.tap line place guard r :: rest) errand) :
    ∃ below, Nested P rest below ∧ below.Employs line place ∧
      (below = .free ∨ r.withdraws = true) := by
  cases h with
  | waiting hrest hemploys _ _ hwithdraws => exact ⟨_, hrest, hemploys, hwithdraws⟩
  | passing hrest => exact ⟨.free, hrest, trivial, .inl rfl⟩
  | retreating hrest hemploys _ hwithdraws => exact ⟨_, hrest, hemploys, .inr hwithdraws⟩
  | calm _ hcalm => cases hcalm

theorem tail_calm {f : Frame α ε} (h : Nested P (f :: rest) errand) (hcalm : f.isCalm = true) :
    errand = .free ∧ Nested P rest .free := by
  cases h with
  | calm hrest => exact ⟨rfl, hrest⟩
  | _ => cases hcalm

theorem tail_outside {c : Callback α ε} (h : Nested P (.outside c :: rest) errand) :
    (errand = .free ∨ errand = .away) ∧ ∃ below, Nested P rest below := by
  cases h with
  | client hrest => exact ⟨.inl rfl, _, hrest⟩
  | away hrest => exact ⟨.inr rfl, _, hrest⟩
  | calm hrest => exact ⟨.inl rfl, _, hrest⟩

end Nested

namespace State

variable {P : Plan σ α ε} {S U : State σ α ε} {events : List (Event α ε)} {line place : Nat}

/-- What the machine attends to belongs to the errand. -/
def Attends (P : Plan σ α ε) (S : State σ α ε) : Errand → Prop
  | .free => True
  | .away => ∀ c, S.focus ≠ .call c
  | .cancel line position => (∀ c, S.focus = .call c → ∃ h, c = .control line position h .cancel) ∧
    ∀ b, S.focus ≠ .outside b
  | .error line position =>
    (∀ c, S.focus = .call c → ∃ e, c = P.signal line position (.error e)) ∧
      ∀ b, S.focus ≠ .outside b

theorem attends_back {b : Bool} (h : S.focus = .back b) (errand : Errand) : S.Attends P errand := by
  cases errand <;> simp [Attends, h]

/-- The machine is on an errand that the calls which wait allow for. -/
def Composed (P : Plan σ α ε) (S : State σ α ε) : Prop :=
  ∃ errand, Nested P S.stack errand ∧ S.Attends P errand

namespace Composed

theorem of_free {rest : List (Frame α ε)} (h : Nested P rest .free) (hstack : U.stack = rest) :
    U.Composed P := by
  subst hstack
  exact ⟨.free, h, trivial⟩

theorem turned {rest : List (Frame α ε)} {turn : Tap.Turn σ α ε} {errand : Errand}
    (hrest : Nested P rest errand) (hemploys : errand.Employs line place) (hplace : place < P.depth)
    (hmarked : turn.Marked) (hwithdraws : errand = .free ∨ turn.Withdraws)
    (hturned : Turned P S rest line place turn U) : U.Composed P := by
  have hnext := hturned.next
  cases hturn : turn.next with
  | answer b =>
      rw [hturn] at hnext
      refine ⟨errand, ?_, attends_back hnext.2 errand⟩
      rw [hnext.1]
      exact hrest
  | down s r =>
      rw [hturn] at hnext
      obtain ⟨⟨guard, hstack⟩, hfocus⟩ := hnext
      have hwaits := hmarked.down s r hturn
      rcases hwithdraws with rfl | hwithdraws
      · exact of_free (.passing hrest hwaits) hstack
      · have hretreat := hwithdraws.next
        rw [hturn] at hretreat
        cases s with
        | error e =>
            simp only [Tap.Next.withdraws, Bool.and_eq_true] at hretreat
            refine ⟨.error line (place + 1), ?_, ?_, by simp [hfocus]⟩
            · rw [hstack]
              exact .retreating hrest hemploys hwaits hretreat.1
            · intro c hcall
              rw [hfocus] at hcall
              cases hcall
              exact ⟨e, rfl⟩
        | _ => cases hretreat
  | up handle c r =>
      rw [hturn] at hnext
      obtain ⟨⟨guard, hstack⟩, hfocus⟩ := hnext
      have hwaits := hmarked.up handle c r hturn
      cases c with
      | request n =>
          rcases hwithdraws with rfl | hwithdraws
          · exact of_free (.passing hrest hwaits) hstack
          · have hretreat := hwithdraws.next
            rw [hturn] at hretreat
            cases hretreat
      | cancel =>
          refine ⟨.cancel line place, ?_, ?_, by simp [hfocus]⟩
          · rw [hstack]
            refine .waiting hrest hemploys hplace hwaits (hwithdraws.imp_right fun hwithdraws => ?_)
            have hretreat := hwithdraws.next
            rw [hturn] at hretreat
            simp only [Tap.Next.withdraws, Bool.and_eq_true] at hretreat
            exact hretreat.1
          · intro c hcall
            rw [hfocus] at hcall
            cases hcall
            exact ⟨handle, rfl⟩

/-- A call to a tap gives it work on the errand, and a tap that gets its work from a cancellation
withdraws. -/
theorem employs {errand : Errand} (hhandled : S.Handled P) (hattends : S.Attends P errand)
    {c : Call α ε} {input : Tap.Input α ε} (hfocus : S.focus = .call c)
    (hinput : c.input? = some (line, place, input)) :
    errand.Employs line place ∧
      (errand = .free ∨ input.isError = true ∨ input = .control .cancel) := by
  cases errand with
  | free => exact ⟨trivial, .inl rfl⟩
  | away => exact absurd hfocus (hattends c)
  | cancel l position =>
      obtain ⟨handle, rfl⟩ := hattends.1 c hfocus
      cases handle with
      | tap q =>
          cases hinput
          have hgrants := (hhandled.called _ hfocus).grants line position (.tap place) rfl
          exact ⟨⟨rfl, hgrants.1⟩, .inr (.inr rfl)⟩
      | _ => cases hinput
  | error l position =>
      obtain ⟨e, rfl⟩ := hattends.1 c hfocus
      unfold Plan.signal at hinput
      split at hinput
      next hlt =>
        cases hinput
        exact ⟨⟨rfl, rfl⟩, .inr (.inl rfl)⟩
      next => cases hinput

/-- A call that neither cancels nor brings an error shows that anything can happen. -/
theorem free_of_call {errand : Errand} (hattends : S.Attends P errand) {c : Call α ε}
    (hfocus : S.focus = .call c) (hcontrol : ∀ l position h, c ≠ .control l position h .cancel)
    (hsignal : c.input? = none ∧ ∀ l s, c ≠ .client l s) : errand = .free := by
  cases errand with
  | free => rfl
  | away => exact absurd hfocus (hattends c)
  | cancel l position =>
      obtain ⟨handle, rfl⟩ := hattends.1 c hfocus
      exact absurd rfl (hcontrol l position handle)
  | error l position =>
      obtain ⟨e, rfl⟩ := hattends.1 c hfocus
      unfold Plan.signal at hsignal
      split at hsignal
      · cases hsignal.1
      · exact absurd rfl (hsignal.2 l _)

theorem emitting {errand : Errand} {rest : List (Frame α ε)} (hnested : Nested P S.stack errand)
    (hattends : S.Attends P errand) (hemitting : S.Emitting line rest) : Nested P rest .free := by
  rcases hemitting with ⟨n, hfocus, rfl⟩ | ⟨b, n, last, -, hstack⟩
  · have hfree := free_of_call hattends hfocus (by simp) (by simp [Call.input?])
    rwa [hfree] at hnested
  · rw [hstack] at hnested
    exact (hnested.tail_calm rfl).2

theorem step (h : S.Composed P) (hhandled : S.Handled P) (hstep : Stepped P S U events) :
    U.Composed P := by
  obtain ⟨errand, hnested, hattends⟩ := h
  have hcalm : ∀ {f : Frame α ε}, Nested P S.stack .free → U.stack = f :: S.stack →
      f.isCalm = true → U.Composed P := fun hfree hstack hf => of_free (.calm hfree hf) hstack
  have hjoin : ∀ {line position : Nat} {context : Context},
      S.focus = .call (.join line position context) → Nested P S.stack .free := by
    intro line position context hfocus
    have hfree := free_of_call hattends hfocus (by simp) (by simp [Call.input?])
    rwa [hfree] at hnested
  have hback : ∀ {rest : List (Frame α ε)} {below : Errand} {b : Bool}, Nested P rest below →
      U.stack = rest → U.focus = .back b → U.Composed P := by
    rintro rest below b hrest rfl hfocus
    exact ⟨below, hrest, attends_back hfocus below⟩
  cases hstep with
  | @serve c line place input p t hfocus hinput hplan htap hturned =>
      have hplace : place < P.depth := (List.getElem?_eq_some_iff.mp hplan).1
      obtain ⟨hemploys, hretreat⟩ := employs hhandled hattends hfocus hinput
      exact turned hnested hemploys hplace (Tap.serve_marked (p.listener _) _ _ input)
        (hretreat.imp_right fun hinput => Tap.serve_withdraws (p.listener _) _ _ hinput) hturned
  | @resume b line place guard r rest p t hfocus hstack hplan htap hturned =>
      have hplace : place < P.depth := (List.getElem?_eq_some_iff.mp hplan).1
      rw [hstack] at hnested
      obtain ⟨below, hrest, hemploys, hretreat⟩ := hnested.tail_tap
      exact turned hrest hemploys hplace (Tap.resume_marked (p.listener _) r b)
        (hretreat.imp_right fun hr => Tap.resume_withdraws (p.listener _) b hr) hturned
  | setUp hfocus hplan hlines hstack => exact hcalm (hjoin hfocus) hstack rfl
  | refuse hfocus hplan hlines hstack => exact hcalm (hjoin hfocus) hstack rfl
  | explain hfocus hstack hlines hrest =>
      rw [hstack] at hnested
      exact of_free (hnested.tail_calm rfl).2 hrest
  | @hear line s hfocus hlines hstack hnext =>
      refine of_free (.client hnested ?_) hstack
      cases errand with
      | free => exact .inl rfl
      | away => exact absurd hfocus (hattends _)
      | cancel l position =>
          obtain ⟨handle, heq⟩ := hattends.1 _ hfocus
          cases heq
      | error l position =>
          obtain ⟨e, heq⟩ := hattends.1 _ hfocus
          unfold Plan.signal at heq
          split at heq
          next => cases heq
          next hdepth =>
            cases heq
            exact .inr ⟨position, rfl, Nat.not_lt.mp hdepth⟩
  | @callOut c callback hfocus hcall hlines hstack hnext =>
      rcases hcall with ⟨line, position, id, ctl, rfl, rfl⟩ | ⟨line, context, rfl, rfl⟩
      · -- Whatever the machine was about, now it waits for the owner of the handle.
        refine ⟨.away, ?_, by simp [Attends, hnext]⟩
        rw [hstack]
        exact .away hnested
      · exact hcalm (hjoin hfocus) hstack rfl
  | endStream hfocus hlines hstack => exact hcalm (hjoin hfocus) hstack rfl
  | ended hfocus hstack hlines hrest =>
      rw [hstack] at hnested
      exact of_free (hnested.tail_calm rfl).2 hrest
  | startEmission hfocus hlines hstack =>
      exact of_free (hjoin hfocus) hstack
  | emit hemitting hlines hframe hstack =>
      refine of_free (.calm (emitting hnested hattends hemitting) ?_) hstack
      rcases hframe with ⟨n, last, rfl⟩ | rfl <;> rfl
  | loop hemitting hlines hstack =>
      refine of_free ?_ hstack
      rcases hemitting with hemitting | ⟨position, k, hfocus, rfl⟩
      · exact emitting hnested hattends hemitting
      · have hfree := free_of_call hattends hfocus (by simp) (by simp [Call.input?])
        rwa [hfree] at hnested
  | idle hfocus hcall hclient hlines hstack hnext => exact hback hnested hstack hnext
  | @pop b b' f rest hfocus hstack hframe hlines hrest hnext =>
      rw [hstack] at hnested
      rcases hframe with hpassive | ⟨line, place, guard, r, rfl, -⟩
      · have hf : f.isCalm = true := by cases f <;> first | rfl | cases hpassive
        exact hback (hnested.tail_calm hf).2 hrest hnext
      · obtain ⟨below, hbelow, -⟩ := hnested.tail_tap
        exact hback hbelow hrest hnext
  | handOver hfocus hstack hlines hsame hnext =>
      refine ⟨errand, hsame ▸ hnested, ?_⟩
      rcases hstack with hempty | ⟨c, rest, hstack⟩
      · rw [hempty] at hnested
        cases hnested
        trivial
      · rw [hstack] at hnested
        rcases hnested.tail_outside.1 with rfl | rfl
        · trivial
        · simp [Attends, hnext]

theorem move {m : Move α ε} (h : S.Composed P) (hallows : S.allows P m = true)
    (hmove : Moved P S U m) : U.Composed P := by
  obtain ⟨errand, hnested, hattends⟩ := h
  -- Whoever is behind a handle outside only returns.
  have hfree : ∀ b, S.focus = .outside b → S.isHandled = false → U.stack = S.stack →
      U.Composed P := by
    intro b hturn hhandled hstack
    refine of_free ?_ hstack
    cases errand with
    | free => exact hnested
    | away =>
        rw [isHandled] at hhandled
        cases hS : S.stack with
        | nil =>
            rw [hS] at hnested
            cases hnested
        | cons f rest =>
            rw [hS] at hnested hhandled
            cases hnested
            cases hhandled
    | cancel line position => exact absurd hturn (hattends.2 b)
    | error line position => exact absurd hturn (hattends.2 b)
  cases hmove with
  | subscribe hturn hlines hstack hnext =>
      exact hfree _ hturn (by simpa [allows] using hallows) hstack
  | @signal line s b hturn hlines hstack hnext =>
      refine hfree _ hturn ?_ hstack
      cases s <;> simp only [allows, Bool.and_eq_true, Bool.not_eq_true'] at hallows <;>
        exact hallows.1
  | control hturn hreceived hlines hstack hnext =>
      exact hfree _ hturn (by simpa [allows] using hallows) hstack
  | direct => cases hallows
  | answer hturn hstack hlines hrest hnext =>
      rw [hstack] at hnested
      obtain ⟨-, below, hbelow⟩ := hnested.tail_outside
      refine ⟨below, ?_, attends_back hnext below⟩
      rw [hrest]
      exact hbelow

theorem start (ambient : Context) : (State.start P ambient).Composed P := ⟨.free, .nil, trivial⟩

/-- A tap that waits for a cancellation is called only with an error, by the tap before it. -/
theorem waiting (h : S.Composed P) (hhandled : S.Handled P) {input : Tap.Input α ε}
    (hcalls : S.Calls line place input) :
    ∀ r ∈ (S.pending line place).head?, r.waits = true → 0 < place ∧ input.isError = true := by
  obtain ⟨errand, hnested, hattends⟩ := h
  obtain ⟨c, hfocus, hinput⟩ := hcalls
  intro r hr hwaits
  obtain ⟨hdetains, -⟩ := hnested.detains r hr hwaits
  obtain ⟨hemploys, -⟩ := employs hhandled hattends hfocus hinput
  cases errand with
  | free => exact hdetains.elim
  | away => exact hemploys.elim
  | cancel l position =>
      have hle := hdetains.2
      have heq := hemploys.2
      omega
  | error l position =>
      obtain ⟨rfl, rfl⟩ := hemploys
      refine ⟨hnested.error_pos, ?_⟩
      obtain ⟨e, rfl⟩ := hattends.1 c hfocus
      unfold Plan.signal at hinput
      split at hinput
      next =>
        cases hinput
        rfl
      next => cases hinput

end Composed

end State

end Wiretap

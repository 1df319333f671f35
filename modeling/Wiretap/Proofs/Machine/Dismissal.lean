import Wiretap.Proofs.Machine.Dialogue
import Wiretap.Proofs.Machine.Forsaken
import Wiretap.Proofs.Machine.Unwinding
import Wiretap.Proofs.Tap.Dismissal

/-!
# How a line is dismissed

The receivers behind a tap that could not be set up get a handle and then an error, and nothing
else. The handle goes down the line as far as the client, which may ask for items from inside its
callback; when the client has returned, the machine comes back to where the tap is missing, and the
error goes down the line at once. So when a client that does not cancel in the callback has the turn
again, everybody has been told.
-/

namespace Wiretap

variable {K : Kinds} {σ α ε : Type} {P : Plan σ α ε} {S T U : State σ α ε}
  {line place k left : Nat} {f : Fault} {before events : List (Event α ε)}
  {base stack : List (Frame α ε)} {count : Nat → Nat}

/-- The handle that a receiver gets with `k` other ones between it and a tap that could not be set
up. -/
def Handle.standIn (place : Nat) : Nat → Handle
  | 0 => .empty
  | k + 1 => .tap (place + k + 1)

namespace Plan

/-- The error that this receiver gets. -/
def excuse (P : Plan σ α ε) (f : Fault) : Nat → TapError ε
  | 0 => .listener f
  | k + 1 => .source (P.adapt (P.excuse f k))

/-- All that this receiver gets. -/
def regrets (P : Plan σ α ε) (place : Nat) (f : Fault) (k : Nat) : List (Signal α (TapError ε)) :=
  [.subscribe (.standIn place k), .error (P.excuse f k)]

end Plan

/-- Every receiver behind a place has got so many of the signals that it gets in all. -/
def Hears (P : Plan σ α ε) (line place : Nat) (f : Fault) (count : Nat → Nat)
    (events : List (Event α ε)) : Prop :=
  ∀ k, place + k + 1 ≤ P.depth → arrivals P line (place + k + 1) events =
    ((P.regrets place f k).take (count k)).map (P.signal line (place + k + 1))

namespace Hears

/-- A signal is delivered. -/
theorem deliver (h : Hears P line place f count before) (hassembled : S.Assembled P)
    (hstep : Stepped P S U events) (hk : place + k + 1 ≤ P.depth) {s : Signal α (TapError ε)}
    (hfocus : S.focus = .call (P.signal line (place + k + 1) s))
    (hs : (P.regrets place f k)[count k]? = some s) {count' : Nat → Nat}
    (hcount : ∀ j, count' j = if j = k then count k + 1 else count j) :
    Hears P line place f count' (before ++ events) := by
  intro j hj
  rw [arrivals_append, h j hj, State.step_arrivals hassembled hstep,
    State.inFlight_signal hk hj hfocus, hcount]
  by_cases hhere : j = k
  · subst hhere
    simp [List.take_add_one, hs]
  · have hother : ¬(line = line ∧ place + k + 1 = place + j + 1) := by omega
    rw [if_neg hother, if_neg hhere, List.append_nil]

/-- Nothing is delivered. -/
theorem rest (h : Hears P line place f count before) (hassembled : S.Assembled P)
    (hstep : Stepped P S U events)
    (hquiet : ∀ j, place + j + 1 ≤ P.depth → S.inFlight P line (place + j + 1) = []) :
    Hears P line place f count (before ++ events) := by
  intro j hj
  rw [arrivals_append, h j hj, State.step_arrivals hassembled hstep, hquiet j hj, List.append_nil]

theorem congr {count' : Nat → Nat} (h : Hears P line place f count events)
    (hcount : ∀ j, place + j + 1 ≤ P.depth → count' j = count j) :
    Hears P line place f count' events := by
  intro j hj
  rw [h j hj, hcount j hj]

end Hears

/-- Above the frames `base` the taps behind a place wait for their receivers, the last one for the
receiver with `k` others before it. -/
inductive Ushers (line place : Nat) (base : List (Frame α ε)) : Nat → List (Frame α ε) → Prop
  | none : Ushers line place base 0 base
  | tap {k : Nat} {guard : Guard} {rest : List (Frame α ε)}
    (hrest : Ushers line place base k rest) :
    Ushers line place base (k + 1) (.tap line (place + k + 1) guard .leave :: rest)

theorem Ushers.mem (h : Ushers line place base k stack) {g : Frame α ε} (hg : g ∈ base) :
    g ∈ stack := by
  induction h with
  | none => exact hg
  | tap _ ih => exact List.mem_cons_of_mem _ ih

namespace State

/-- The tap at a place has this handle, or none, its stream has not ended, and the calls of it that
wait will just return. -/
def StandsBy (S : State σ α ε) (line place : Nat) (source : Option Handle) : Prop :=
  ∃ t, S.tap? line place = some t ∧ t.Stands source ∧ ∀ r ∈ S.pending line place, r = .leave

namespace StandsBy

variable {source : Option Handle} {rest : List (Frame α ε)} {turn : Tap.Turn σ α ε}

theorem keep (h : S.StandsBy line place source) (htap : U.tap? line place = S.tap? line place)
    (hpending : ∀ r ∈ U.pending line place, r ∈ S.pending line place) :
    U.StandsBy line place source := by
  obtain ⟨t, hthere, hstands, hleave⟩ := h
  exact ⟨t, htap.trans hthere, hstands, fun r hr => hleave r (hpending r hr)⟩

/-- Another tap takes a turn. -/
theorem other (h : S.StandsBy line place source) {l p : Nat}
    (hother : ¬(line = l ∧ place = p)) (hturned : Turned P S rest l p turn U)
    (hrest : ∀ g ∈ rest, g ∈ S.stack) : U.StandsBy line place source := by
  refine h.keep ((tap?_eq hturned.lines line place).trans (setTap_tap?_other hother _)) ?_
  rw [turned_pending_other hother hturned]
  intro r hr
  obtain ⟨g, hg, hresume⟩ := List.mem_filterMap.mp hr
  exact List.mem_filterMap.mpr ⟨g, hrest g hg, hresume⟩

/-- The tap takes a turn after which it stands. -/
theorem turned (h : S.StandsBy line place source) {source' : Option Handle}
    (hturned : Turned P S rest line place turn U) (hrest : ∀ g ∈ rest, g ∈ S.stack)
    (hstands : turn.tap.Stands source') (hresume : ∀ r ∈ turn.next.resume?, r = .leave) :
    U.StandsBy line place source' := by
  obtain ⟨t, hthere, -, hleave⟩ := h
  have hplace : S.HasPlace line place := hasPlace_of_tap? (by rw [hthere]; rfl)
  refine ⟨turn.tap, (tap?_eq hturned.lines line place).trans (setTap_tap?_self hplace _),
    hstands, ?_⟩
  rw [turned_pending hturned]
  intro r hr
  rcases List.mem_append.mp hr with hr | hr
  · exact hresume r (Option.mem_toList.mp hr)
  · obtain ⟨g, hg, hresume⟩ := List.mem_filterMap.mp hr
    exact hleave r (List.mem_filterMap.mpr ⟨g, hrest g hg, hresume⟩)

/-- The tap hears a signal, and no hook fails. -/
theorem hears (h : S.StandsBy line place source) (hassembled : S.Assembled P)
    (hstep : S.step? P = some (U, events)) {s : Signal α ε}
    (hfocus : S.focus = .call (.tap line place s))
    (hsound : Tap.failures (deeds line place events) = []) :
    ∃ (t : Tap σ) (p : TapPlan σ α ε), t.Stands source ∧
      Turned P S S.stack line place (S.served p t line place (.signal s)) U ∧
      Tap.failures (S.served p t line place (.signal s)).deeds = [] := by
  obtain ⟨t, htap, hstands, -⟩ := h
  obtain ⟨p, hplan⟩ := hassembled.planned (S := S) (by rw [htap]; rfl)
  obtain ⟨hturned, hshows⟩ := step_serves hstep hplan htap hfocus rfl
  rw [hshows.here] at hsound
  exact ⟨t, p, hstands, hturned, hsound⟩

/-- A tap that hears no signal and is not cancelled lets its receiver ask for items, and nothing
else happens to it. -/
theorem modest (h : S.StandsBy line place source) (hassembled : S.Assembled P)
    (hstep : Stepped P S U events) (hsilent : ∀ s, S.focus ≠ .call (.tap line place s))
    (hspares : ∀ position, .cancel ∉ S.due line position)
    (hsound : Tap.failures (deeds line place events) = []) :
    U.StandsBy line place source ∧ Tap.given (deeds line place events) = [] ∧
      .cancel ∉ U.due line place := by
  obtain ⟨t, htap, hstands, hleave⟩ := id h
  have hwill : ∀ (begun : List (Tap.Deed α ε)) {rest : List (Frame α ε)} {turn : Tap.Turn σ α ε},
      Turned P S rest line place turn U → (∀ g ∈ rest, g ∈ S.stack) → turn.Modest source →
      deeds line place events = begun ++ turn.deeds → Tap.given begun = [] →
      U.StandsBy line place source ∧ Tap.given (deeds line place events) = [] ∧
        .cancel ∉ U.due line place := by
    intro begun rest turn hturned hrest hmodest hdeeds hbegun
    refine ⟨h.turned hturned hrest hmodest.stands ?_, ?_, ?_⟩
    · obtain ⟨b, hnext⟩ | ⟨handle, n, hnext⟩ := hmodest.next <;> simp [hnext, Tap.Next.resume?]
    · rw [hdeeds, Tap.given_append, hbegun, hmodest.given]
      rfl
    · rw [due_of_turned hturned]
      obtain ⟨b, hnext⟩ | ⟨handle, n, hnext⟩ := hmodest.next <;> simp [hnext, Tap.Next.uses]
  by_cases hunseen : deeds line place events = []
  · obtain ⟨hsame, hpending⟩ := step_rests hassembled hstep htap hunseen
    refine ⟨h.keep (hsame.trans htap.symm) fun r hr => hpending ▸ hr, by rw [hunseen]; rfl, ?_⟩
    simp [step_due hstep fun _ => hunseen]
  · obtain ⟨p, hplan⟩ := hassembled.planned (S := S) (by rw [htap]; rfl)
    cases step_acts hassembled hstep hplan htap hunseen with
    | @serve c input hfocus hinput hturned hdeeds =>
        cases c with
        | tap l q s =>
            cases hinput
            exact absurd hfocus (hsilent s)
        | control l q handle ctl =>
            cases handle with
            | tap q' =>
                cases hinput
                cases ctl with
                | cancel => exact absurd (by simp [due, hfocus]) (hspares q)
                | request n =>
                    refine hwill [_] hturned (fun g hg => hg) ?_ hdeeds rfl
                    rw [hdeeds] at hsound
                    exact hstands.request _ _ n hsound
            | _ => cases hinput
        | _ => cases hinput
    | @resume b guard r rest hfocus hstack hturned hdeeds =>
        obtain rfl : r = .leave := by
          refine hleave r (List.mem_filterMap.mpr ⟨.tap line place guard r, ?_, ?_⟩)
          · rw [hstack]
            exact List.mem_cons_self
          · simp [Frame.resume?]
        refine hwill [] hturned (fun g hg => ?_) hstands.finish hdeeds rfl
        rw [hstack]
        exact List.mem_cons_of_mem _ hg

end StandsBy

/-- The frame of somebody outside stays until the outside answers. -/
theorem step?_outside (hassembled : S.Assembled P) (hstep : S.step? P = some (U, events))
    {above below : List (Frame α ε)} {c : Callback α ε}
    (hstack : S.stack = above ++ .outside c :: below) :
    ∃ above', U.stack = above' ++ .outside c :: below := by
  cases step?_rewinding hassembled hstep with
  | made hfocus h =>
      obtain ⟨new, hnow, -⟩ := h
      exact ⟨new ++ above, by rw [hnow, hstack, List.append_assoc]⟩
  | @returned b f rest hfocus hthen h =>
      cases above with
      | nil =>
          simp only [step?, hfocus, hstack, List.nil_append, resume, Option.some.injEq,
            Prod.mk.injEq] at hstep
          exact ⟨[], by rw [← hstep.1]; rfl⟩
      | cons g above =>
          obtain ⟨new, hnow, -⟩ := h
          rw [hthen, List.cons_append] at hstack
          exact ⟨new ++ above, by rw [hnow, (List.cons.inj hstack).2, List.append_assoc]⟩
  | idle hfocus hthen =>
      rw [hstack] at hthen
      exact absurd hthen (by simp)

theorem isTerminal_of_signal {l p : Nat} {s s' : Signal α (TapError ε)}
    (h : P.signal l p s = P.signal l p s') : s.isTerminal = s'.isTerminal := by
  unfold Plan.signal at h
  split at h
  · cases s <;> cases s' <;> first | rfl | cases h
  · cases h
    rfl

/-- A client that is called listens. -/
theorem step?_listens (hstep : S.step? P = some (U, events)) {s : Signal α (TapError ε)}
    (hfocus : S.focus = .call (.client line s)) :
    U.stack = .outside (.client line s) :: S.stack ∧ U.focus = .outside true ∧
      ∀ l p, U.tap? l p = S.tap? l p := by
  simp only [step?, hfocus, make, Option.some.injEq, Prod.mk.injEq] at hstep
  obtain ⟨rfl, -⟩ := hstep
  exact ⟨rfl, rfl, receive_tap? rfl⟩

/-- The machine makes steps in which a hook of a tap behind a place fails. -/
def Stumbles (P : Plan σ α ε) (line place : Nat) (S : State σ α ε) : Prop :=
  ∃ (events : List (Event α ε)) (U : State σ α ε), Run P S (events.map .event) U ∧
    ∃ q, place < q ∧ q < P.depth ∧ Tap.failures (deeds line q events) ≠ []

namespace Stumbles

theorem of_fails (hstep : S.step? P = some (U, events)) {q : Nat} (hq : place < q)
    (hinside : q < P.depth) (hfails : Tap.failures (deeds line q events) ≠ []) :
    S.Stumbles P line place :=
  ⟨events, U, .step .refl hstep, q, hq, hinside, hfails⟩

theorem of_step (hstep : S.step? P = some (T, events)) (h : T.Stumbles P line place) :
    S.Stumbles P line place := by
  obtain ⟨later, U, hrun, q, hq, hinside, hfails⟩ := h
  have hfirst : Run P S ([] ++ events.map .event) T := .step .refl hstep
  refine ⟨events ++ later, U, ?_, q, hq, hinside, ?_⟩
  · rw [List.map_append]
    exact hfirst.trans hrun
  · rw [deeds_append, Tap.failures_append]
    exact List.append_ne_nil_of_right_ne_nil _ hfails

end Stumbles

end State

/-- How far the dismissal of a line has come whose tap at a place could not be set up, above the
frames `base`. While the handle or the error is on its way to the client, or about to be, the number
is that of the steps which this takes. -/
inductive Dismissal (P : Plan σ α ε) (line place : Nat) (f : Fault) (base : List (Frame α ε))
    (events : List (Event α ε)) (S : State σ α ε) : Nat → Prop
  /-- The handle goes down the line. -/
  | greeting (k : Nat) (hk : place + k + 1 ≤ P.depth)
    (hfocus : S.focus = .call (P.signal line (place + k + 1) (.subscribe (.standIn place k))))
    (hstack : Ushers line place (.refusing line (place + 1) f :: base) k S.stack)
    (hstands : ∀ j, place + j + 1 < P.depth → S.StandsBy line (place + j + 1)
      (if j < k then some (.standIn place j) else none))
    (hheard : Hears P line place f (fun j => if j < k then 1 else 0) events) :
    Dismissal P line place f base events S (P.depth - (place + k))
  /-- The client is in the callback in which it gets the handle. -/
  | listening (k : Nat) (hk : place + k + 1 = P.depth) (above : List (Frame α ε))
    {rest : List (Frame α ε)}
    (hstack : S.stack = above ++ .outside (.client line (.subscribe (.standIn place k))) :: rest)
    (hrest : Ushers line place (.refusing line (place + 1) f :: base) k rest)
    (hstands : ∀ j, place + j + 1 < P.depth →
      S.StandsBy line (place + j + 1) (some (.standIn place j)))
    (hheard : Hears P line place f (fun _ => 1) events)
    (hquiet : ∀ j, place + j + 1 ≤ P.depth → S.inFlight P line (place + j + 1) = [])
    (hspares : ∀ position, .cancel ∉ S.due line position) :
    Dismissal P line place f base events S 0
  /-- The callback is over, and the taps return. -/
  | returning (k : Nat) (hk : place + k + 1 ≤ P.depth) {b : Bool} (hfocus : S.focus = .back b)
    (hstack : Ushers line place (.refusing line (place + 1) f :: base) k S.stack)
    (hstands : ∀ j, place + j + 1 < P.depth →
      S.StandsBy line (place + j + 1) (some (.standIn place j)))
    (hheard : Hears P line place f (fun _ => 1) events) :
    Dismissal P line place f base events S (k + 1 + (P.depth - place))
  /-- The error goes down the line. -/
  | telling (k : Nat) (hk : place + k + 1 ≤ P.depth)
    (hfocus : S.focus = .call (P.signal line (place + k + 1) (.error (P.excuse f k))))
    (hstands : ∀ j, k ≤ j → place + j + 1 < P.depth →
      S.StandsBy line (place + j + 1) (some (.standIn place j)))
    (hheard : Hears P line place f (fun j => if j < k then 2 else 1) events) :
    Dismissal P line place f base events S (P.depth - (place + k))
  /-- Everybody has been told. -/
  | told (hheard : Hears P line place f (fun _ => 2) events) :
    Dismissal P line place f base events S 0

namespace Dismissal

/-- A tap that gets the handle passes it on, and the client listens to it. -/
theorem step_greeting (hcivil : S.Civil P before) (hstep : S.step? P = some (U, events))
    (hk : place + k + 1 ≤ P.depth)
    (hfocus : S.focus = .call (P.signal line (place + k + 1) (.subscribe (.standIn place k))))
    (hstack : Ushers line place (.refusing line (place + 1) f :: base) k S.stack)
    (hstands : ∀ j, place + j + 1 < P.depth → S.StandsBy line (place + j + 1)
      (if j < k then some (.standIn place j) else none))
    (hheard : Hears P line place f (fun j => if j < k then 1 else 0) before)
    (hsound : place + k + 1 < P.depth → Tap.failures (deeds line (place + k + 1) events) = []) :
    Dismissal P line place f base (before ++ events) U (P.depth - (place + (k + 1))) := by
  have hstepped := State.step?_stepped hstep
  by_cases hlt : place + k + 1 < P.depth
  · have hcall : S.focus = .call (.tap line (place + k + 1) (.subscribe (.standIn place k))) := by
      rw [hfocus, Plan.signal, if_pos hlt]
      rfl
    have hready := hstands k hlt
    rw [if_neg (Nat.lt_irrefl k)] at hready
    obtain ⟨t, p, ht, hturned, hnone⟩ := hready.hears hcivil.assembled hstep hcall (hsound hlt)
    obtain ⟨hnext, hnow⟩ := ht.subscribe _ _ _ hnone
    have hturn := hturned.next
    rw [hnext] at hturn
    obtain ⟨⟨guard, hU⟩, hUfocus⟩ := hturn
    refine .greeting (k + 1) hlt hUfocus ?_ (fun j hj => ?_) ?_
    · rw [hU]
      exact .tap hstack
    · by_cases hhere : j = k
      · subst hhere
        rw [if_pos (Nat.lt_succ_self j)]
        refine hready.turned hturned (fun g hg => hg) hnow fun r hr => ?_
        rw [hnext] at hr
        exact (Option.some.inj hr).symm
      · have hsame : (j < k + 1) = (j < k) := propext (by omega)
        simp only [hsame]
        exact (hstands j hj).other (by omega) hturned fun g hg => hg
    · refine hheard.deliver hcivil.assembled hstepped hk hfocus (by simp [Plan.regrets]) fun j => ?_
      split_ifs <;> omega
  · have hcall : S.focus = .call (.client line (.subscribe (.standIn place k))) := by
      rw [hfocus, Plan.signal, if_neg hlt]
    obtain ⟨hU, hturn, htaps⟩ := State.step?_listens hstep hcall
    have hlast : place + k + 1 = P.depth := Nat.le_antisymm hk (Nat.not_lt.mp hlt)
    rw [← hlast, ← Nat.add_assoc, Nat.sub_self]
    refine .listening k hlast [] hU hstack (fun j hj => ?_) ?_ (fun j _ => ?_) fun position => ?_
    · have hready := hstands j hj
      rw [if_pos (by omega)] at hready
      refine hready.keep (htaps _ _) fun r hr => ?_
      rwa [State.pending_cons hU rfl] at hr
    · refine (hheard.deliver hcivil.assembled hstepped hk hfocus (by simp [Plan.regrets])
        fun j => rfl).congr fun j hj => ?_
      split_ifs <;> omega
    · simp [State.inFlight, hturn]
    · simp [State.due, hturn]

/-- As long as the fault is owed to the first receiver behind the place, it is not on its way. -/
theorem inFlight_of_owed (hcivil : S.Civil P before) (hforsakes : S.Forsakes P line place f before)
    (hstepped : Stepped P S U events) (hinside : place < P.depth)
    (hheard : Hears P line place f (fun _ => 1) before)
    (hquiet : S.inFlight P line (place + 1) = []) (howed : .refusing line (place + 1) f ∈ U.stack) :
    U.inFlight P line (place + 1) = [] := by
  -- The place has sent nothing, so one signal is under way in all, and that is the one owed.
  have hone : (S.owed P line (place + 1)).length = 1 := by
    obtain ⟨shown, hfails, hhere⟩ := hforsakes.here
    have hdelivers := hcivil.delivers line place hinside
    rw [hheard 0 hinside, hquiet, dispatched, hhere, hfails.given] at hdelivers
    simpa [Plan.regrets] using congrArg List.length hdelivers
  have hpos : 0 < (U.owed P line (place + 1)).length :=
    List.length_pos_of_mem (List.mem_filterMap.mpr ⟨_, howed, if_pos ⟨rfl, rfl⟩⟩)
  have hmail := congrArg List.length (State.step_mail hcivil.assembled hstepped hinside (l := line))
  rw [dispatched, (hforsakes.unseen hcivil.assembled hstepped (Nat.le_refl place)).1,
    List.length_append, List.length_append, hone, Tap.given_nil, List.map_nil, List.length_nil]
    at hmail
  exact List.length_eq_zero_iff.mp (by omega)

/-- While the client listens the machine does whatever the client asks for. -/
theorem step_listening (hcivil : S.Civil P before) (hforsakes : S.Forsakes P line place f before)
    (hstep : S.step? P = some (U, events)) (hk : place + k + 1 = P.depth)
    {above rest : List (Frame α ε)}
    (hstack : S.stack = above ++ .outside (.client line (.subscribe (.standIn place k))) :: rest)
    (hrest : Ushers line place (.refusing line (place + 1) f :: base) k rest)
    (hstands : ∀ j, place + j + 1 < P.depth →
      S.StandsBy line (place + j + 1) (some (.standIn place j)))
    (hheard : Hears P line place f (fun _ => 1) before)
    (hquiet : ∀ j, place + j + 1 ≤ P.depth → S.inFlight P line (place + j + 1) = [])
    (hspares : ∀ position, .cancel ∉ S.due line position)
    (hsound : ∀ q, place < q → q < P.depth → Tap.failures (deeds line q events) = []) :
    Dismissal P line place f base (before ++ events) U 0 := by
  have hassembled := hcivil.assembled
  have hstepped := State.step?_stepped hstep
  have hinside : place < P.depth := by omega
  have hmodest := fun j (hj : place + j + 1 < P.depth) => (hstands j hj).modest hassembled hstepped
    (fun s hfocus => by
      have hflight := hquiet j (Nat.le_of_lt hj)
      simp [State.inFlight, hfocus, hj] at hflight)
    hspares (hsound _ (by omega) hj)
  obtain ⟨above', hU⟩ := State.step?_outside hassembled hstep hstack
  refine .listening k hk above' hU hrest (fun j hj => (hmodest j hj).1)
    (hheard.rest hassembled hstepped hquiet) (fun j hj => ?_) fun position hmem => ?_
  · cases j with
    | zero =>
        refine inFlight_of_owed hcivil hforsakes hstepped hinside hheard (hquiet 0 hinside) ?_
        rw [hU]
        exact List.mem_append_right _ (List.mem_cons_of_mem _ (hrest.mem List.mem_cons_self))
    | succ j =>
        -- The tap before sends nothing, and nothing is owed behind a tap that is there.
        obtain ⟨t, htap, -⟩ := hstands j hj
        have hnone : S.owed P line (place + j + 1 + 1) = [] :=
          List.filterMap_eq_nil_iff.mpr fun g hg =>
            State.owed_of_tap hassembled (by rw [htap]; rfl) hg
        have hmail := State.step_mail hassembled hstepped hj (l := line)
        rw [dispatched, ← Nat.add_assoc, hnone, (hmodest j hj).2.1] at hmail
        exact (List.append_eq_nil_iff.mp hmail).1
  · obtain ⟨p, t, hplan, htap, -⟩ := State.acts_of_due hstepped (List.ne_nil_of_mem hmem)
    have hlt := (List.getElem?_eq_some_iff.mp hplan).1
    obtain ⟨j, rfl⟩ : ∃ j, position = place + j + 1 := by
      refine ⟨position - place - 1, ?_⟩
      by_contra hbefore
      rw [hforsakes.before position (by omega)] at htap
      cases htap
    exact (hmodest j hlt).2.2 hmem

/-- The taps return, and then the first receiver behind the place gets the fault. -/
theorem step_returning (hcivil : S.Civil P before) (hstep : S.step? P = some (U, events))
    (hk : place + k + 1 ≤ P.depth) {b : Bool} (hfocus : S.focus = .back b)
    (hstack : Ushers line place (.refusing line (place + 1) f :: base) k S.stack)
    (hstands : ∀ j, place + j + 1 < P.depth →
      S.StandsBy line (place + j + 1) (some (.standIn place j)))
    (hheard : Hears P line place f (fun _ => 1) before) :
    Dismissal P line place f base (before ++ events) U (k + (P.depth - place)) := by
  have hstepped := State.step?_stepped hstep
  have hquiet : ∀ j, place + j + 1 ≤ P.depth → S.inFlight P line (place + j + 1) = [] := by
    simp [State.inFlight, hfocus]
  have hsame := hheard.rest hcivil.assembled hstepped hquiet
  generalize hS : S.stack = stack at hstack
  cases hstack with
  | none =>
      simp only [State.step?, hfocus, hS, State.resume, Option.some.injEq, Prod.mk.injEq] at hstep
      obtain ⟨rfl, -⟩ := hstep
      rw [Nat.zero_add]
      refine .telling 0 hk rfl (fun j _ hj => ?_) (hsame.congr fun j _ => rfl)
      refine (hstands j hj).keep rfl fun r hr => ?_
      rwa [State.pending_cons hS rfl]
  | @tap k guard rest hrest =>
      have hinside : place + k + 1 < P.depth := hk
      have hready := hstands k hinside
      obtain ⟨t, htap, ht, -⟩ := id hready
      obtain ⟨p, hplan⟩ := hcivil.assembled.planned (S := S) (by rw [htap]; rfl)
      obtain ⟨hturned, -⟩ := State.step_resumes hstep hplan htap hfocus hS
      have hbelow : ∀ g ∈ rest, g ∈ S.stack := fun g hg => hS ▸ List.mem_cons_of_mem _ hg
      obtain ⟨hU, hnow⟩ := hturned.next
      refine .returning k (Nat.le_of_lt hinside) hnow (hU ▸ hrest) (fun j hj => ?_) hsame
      by_cases hhere : j = k
      · subst hhere
        exact hready.turned hturned hbelow ht fun r hr => by cases hr
      · exact (hstands j hj).other (by omega) hturned hbelow

/-- A tap that gets the error passes it on, and at last the client gets it. -/
theorem step_telling (hcivil : S.Civil P before) (hstep : S.step? P = some (U, events))
    (hk : place + k + 1 ≤ P.depth)
    (hfocus : S.focus = .call (P.signal line (place + k + 1) (.error (P.excuse f k))))
    (hstands : ∀ j, k ≤ j → place + j + 1 < P.depth →
      S.StandsBy line (place + j + 1) (some (.standIn place j)))
    (hheard : Hears P line place f (fun j => if j < k then 2 else 1) before)
    (hsound : place + k + 1 < P.depth → Tap.failures (deeds line (place + k + 1) events) = []) :
    Dismissal P line place f base (before ++ events) U (P.depth - (place + (k + 1))) := by
  have hstepped := State.step?_stepped hstep
  have hdelivered : Hears P line place f (fun j => if j < k + 1 then 2 else 1) (before ++ events) :=
    hheard.deliver hcivil.assembled hstepped hk hfocus (by simp [Plan.regrets]) fun j => by
      split_ifs <;> omega
  by_cases hlt : place + k + 1 < P.depth
  · have hcall : S.focus =
        .call (.tap line (place + k + 1) (.error (P.adapt (P.excuse f k)))) := by
      rw [hfocus, Plan.signal, if_pos hlt]
      rfl
    obtain ⟨t, p, ht, hturned, hnone⟩ :=
      (hstands k (Nat.le_refl k) hlt).hears hcivil.assembled hstep hcall (hsound hlt)
    have hturn := hturned.next
    rw [ht.error _ _ _ hnone] at hturn
    refine .telling (k + 1) hlt hturn.2 (fun j hle hj => ?_) hdelivered
    exact (hstands j (Nat.le_of_succ_le hle) hj).other (by omega) hturned fun g hg => hg
  · rw [show P.depth - (place + (k + 1)) = 0 by omega]
    refine .told (hdelivered.congr fun j hj => ?_)
    rw [if_pos (by omega)]

/-- Nothing comes after the error. -/
theorem arrivals_of_regrets (hcivil : S.Civil P before) (hk : place + k + 1 ≤ P.depth)
    (hall : (P.regrets place f k).map (P.signal line (place + k + 1)) <+:
      arrivals P line (place + k + 1) before) :
    arrivals P line (place + k + 1) before =
      (P.regrets place f k).map (P.signal line (place + k + 1)) := by
  have hdelivers := hcivil.delivers line (place + k) hk
  have hlawful := hcivil.peopled.given_lawful line (place + k)
  rw [dispatched, List.append_assoc] at hdelivers
  have hgiven := hall.trans ⟨_, hdelivers⟩
  refine (hall.eq_of_length_le ?_).symm
  have hle := congrArg List.length hdelivers
  rw [List.length_append, List.length_map] at hle
  generalize Tap.given (deeds line (place + k) before) = given at hgiven hle hlawful
  obtain ⟨first, second, rest, rfl⟩ : ∃ first second rest, given = first :: second :: rest := by
    rcases given with - | ⟨first, - | ⟨second, rest⟩⟩
    · simp [Plan.regrets] at hgiven
    · simp [Plan.regrets] at hgiven
    · exact ⟨first, second, rest, rfl⟩
  simp only [Plan.regrets, List.map_cons, List.map_nil, List.cons_prefix_cons] at hgiven
  have hterminal := State.isTerminal_of_signal hgiven.2.1
  cases rest with
  | nil =>
      simp only [Plan.regrets, List.length_map, List.length_cons, List.length_nil] at hle ⊢
      omega
  | cons third rest =>
      -- The place has sent an ending, and goes on.
      have hopen := hlawful.last second (by simp)
      rw [← hterminal] at hopen
      cases hopen

theorem step_told (hcivil : U.Civil P (before ++ events))
    (hheard : Hears P line place f (fun _ => 2) before) :
    Dismissal P line place f base (before ++ events) U 0 := by
  refine .told fun j hj => ?_
  refine arrivals_of_regrets hcivil hj ?_
  rw [arrivals_append, hheard j hj]
  exact List.prefix_append _ _

/-- A step of the machine takes the dismissal further. -/
theorem step (h : Dismissal P line place f base before S left) (hcivil : S.Civil P before)
    (hforsakes : S.Forsakes P line place f before) (hstep : S.step? P = some (U, events))
    (hsound : ∀ q, place < q → q < P.depth → Tap.failures (deeds line q events) = []) :
    Dismissal P line place f base (before ++ events) U (left - 1) := by
  cases h with
  | greeting k hk hfocus hstack hstands hheard =>
      exact step_greeting hcivil hstep hk hfocus hstack hstands hheard (hsound _ (by omega))
  | listening k hk above hstack hrest hstands hheard hquiet hspares =>
      exact step_listening hcivil hforsakes hstep hk hstack hrest hstands hheard hquiet hspares
        hsound
  | returning k hk hfocus hstack hstands hheard =>
      rw [Nat.add_right_comm, Nat.add_sub_cancel]
      exact step_returning hcivil hstep hk hfocus hstack hstands hheard
  | telling k hk hfocus hstands hheard =>
      exact step_telling hcivil hstep hk hfocus hstands hheard (hsound _ (by omega))
  | told hheard => exact step_told (hcivil.step (State.step?_stepped hstep)) hheard

/-- As long as the client is still to be told, the machine makes steps. -/
theorem exists_step (h : Dismissal P line place f base before S left) (hleft : left ≠ 0) :
    ∃ U events, S.step? P = some (U, events) := by
  have hbusy : ∀ b, S.focus ≠ .outside b := by
    intro b hturn
    cases h with
    | greeting k hk hfocus => simp [hfocus] at hturn
    | returning k hk hfocus => simp [hfocus] at hturn
    | telling k hk hfocus => simp [hfocus] at hturn
    | listening => exact hleft rfl
    | told => exact hleft rfl
  cases hstep : S.step? P with
  | none =>
      obtain ⟨b, hturn⟩ := (State.step?_eq_none_iff P).mp hstep
      exact absurd hturn (hbusy b)
  | some outcome => exact ⟨outcome.1, outcome.2, rfl⟩

/-- When the last of them is made, the client has the turn. -/
theorem turn (h : Dismissal P line place f base before S left) (hleft : left = 1)
    (hstep : S.step? P = some (U, events)) : U.focus = .outside true := by
  cases h with
  | greeting k hk hfocus =>
      rw [Plan.signal, if_neg (by omega)] at hfocus
      exact (State.step?_listens hstep hfocus).2.1
  | telling k hk hfocus =>
      rw [Plan.signal, if_neg (by omega)] at hfocus
      exact (State.step?_listens hstep hfocus).2.1
  | returning k hk => omega
  | listening => cases hleft
  | told => cases hleft

/-- The machine makes steps until the client has been told, or until a hook fails. -/
theorem yields (h : Dismissal P line place f base before S left) (hcivil : S.Civil P before)
    (hforsakes : S.Forsakes P line place f before) (hleft : left ≠ 0) :
    S.Yields P ∨ S.Stumbles P line place := by
  induction left generalizing S before with
  | zero => exact absurd rfl hleft
  | succ left ih =>
      obtain ⟨U, events, hstep⟩ := h.exists_step hleft
      by_cases hsound : ∀ q, place < q → q < P.depth → Tap.failures (deeds line q events) = []
      · have hnext := h.step hcivil hforsakes hstep hsound
        cases left with
        | zero => exact .inl (.of_step hstep (.of_outside (h.turn rfl hstep)))
        | succ left =>
            apply (ih hnext (hcivil.step (State.step?_stepped hstep))
              (hforsakes.step hcivil.assembled hstep) (Nat.succ_ne_zero left)).imp
            · exact .of_step hstep
            · exact .of_step hstep
      · right
        simp only [not_forall] at hsound
        obtain ⟨q, hq, hinside, hfails⟩ := hsound
        exact .of_fails hstep hq hinside hfails

/-- A move of the outside takes the dismissal no further, unless the client returns. -/
theorem move {m : Move α ε} (h : Dismissal P line place f base before S left)
    (hforsakes : S.Forsakes P line place f before) (hallows : S.allows P m = true)
    (hmove : Moved P S U m)
    (hpatient : ∀ nth, m = .control line nth .cancel →
      ∀ handle, .client line (.subscribe handle) ∉ S.callbacks) :
    ∃ left, Dismissal P line place f base before U left := by
  obtain ⟨b, hturn⟩ := State.move_turn hmove
  cases h with
  | greeting k hk hfocus => simp [hfocus] at hturn
  | returning k hk hfocus => simp [hfocus] at hturn
  | telling k hk hfocus => simp [hfocus] at hturn
  | told hheard => exact ⟨0, .told hheard⟩
  | @listening k hk above rest hstack hrest hstands hheard hquiet hspares =>
      have hstands' : ∀ j, place + j + 1 < P.depth →
          U.StandsBy line (place + j + 1) (some (.standIn place j)) := fun j hj => by
        obtain ⟨htap, hpending, -⟩ := State.move_keeps hmove hforsakes.started (place + j + 1)
        exact (hstands j hj).keep htap fun r hr => hpending ▸ hr
      have hstay : U.stack = S.stack →
          (∀ j, place + j + 1 ≤ P.depth → U.inFlight P line (place + j + 1) = []) →
          (∀ position, .cancel ∉ U.due line position) →
          ∃ left, Dismissal P line place f base before U left := fun hsame hsilent hpatient =>
        ⟨0, .listening k hk above (hsame.trans hstack) hrest hstands' hheard hsilent hpatient⟩
      cases hmove with
      | subscribe _ hlines hsame hnext =>
          refine hstay hsame (fun j _ => ?_) fun position => ?_
          · simp [State.inFlight, hnext]
          · simp [State.due, hnext]
      | signal _ hlines hsame hnext =>
          refine hstay hsame (fun j hj => State.inFlight_sourceSignal hj hnext line)
            fun position => ?_
          rw [State.due_of_sourceSignal hnext]
          exact List.not_mem_nil
      | @control l nth c handle _ _ hreceived hlines hsame hnext =>
          refine hstay hsame (fun j _ => ?_) fun position hmem => ?_
          · simp [State.inFlight, hnext]
          · -- Only the client of the line could cancel, and it is in the callback.
            obtain ⟨⟨rfl, -⟩, rfl⟩ : (l = line ∧ P.depth = position) ∧ .cancel = c := by
              simpa [State.due, hnext] using hmem
            refine hpatient nth rfl (.standIn place k) ?_
            rw [State.callbacks, hstack]
            exact List.mem_filterMap.mpr ⟨_, List.mem_append_right _ List.mem_cons_self, rfl⟩
      | direct => cases hallows
      | answer _ hthen hlines hafter hnext =>
          rw [hstack] at hthen
          -- The client returns, or somebody does from a callback inside this one.
          cases above with
          | nil =>
              obtain ⟨-, rfl⟩ := List.cons.inj hthen
              exact ⟨_, .returning k (Nat.le_of_eq hk) hnext (hafter ▸ hrest) hstands' hheard⟩
          | cons g above =>
              obtain ⟨-, rfl⟩ := List.cons.inj hthen
              refine ⟨0, .listening k hk above hafter hrest hstands' hheard (fun j _ => ?_)
                fun position => ?_⟩
              · simp [State.inFlight, hnext]
              · simp [State.due, hnext]

end Dismissal

/-- A tap that has heard nothing stands by. -/
theorem State.Civil.standsBy (h : S.Civil P events) (hthere : (S.tap? line place).isSome = true)
    (hunheard : Tap.heard (deeds line place events) = []) :
    S.StandsBy line place none ∧ S.pending line place = [] ∧
      Tap.given (deeds line place events) = [] := by
  obtain ⟨t, htap⟩ := Option.isSome_iff_exists.mp hthere
  obtain ⟨p, -, hlived⟩ := h.lived htap
  obtain ⟨hstands, hpending, hsent⟩ := (Tap.Life.Lived.opening hlived).unheard hunheard
  refine ⟨⟨t, htap, hstands, fun r hr => ?_⟩, hpending, hlived.given_eq.trans hsent⟩
  rw [show S.pending line place = [] from hpending] at hr
  cases hr

/-- Where a tap cannot be set up the dismissal of the line begins. -/
theorem State.Refuses.dismissal (h : S.Refuses P U events line place f) (hcivil : S.Civil P before)
    (hbudding : S.Budding before) (hstepped : Stepped P S U events) :
    Dismissal P line place f S.stack (before ++ events) U (P.depth - place) := by
  obtain ⟨context, hfocus⟩ := h.focus
  have hjoining := hcivil.assembled.joining _ _ _ hfocus
  have hfresh := fun j (hj : place + j + 1 < P.depth) => hcivil.standsBy
    (hjoining.behind (place + j + 1) (by omega) hj) (hbudding.unheard _ _ _ hfocus _)
  refine .greeting 0 hjoining.inside h.next ?_ (fun j hj => ?_) fun j hj => ?_
  · rw [h.stack]
    exact .none
  · refine (hfresh j hj).1.keep (tap?_eq h.lines _ _) fun r hr => ?_
    rwa [pending_cons h.stack rfl] at hr
  · have hnone : dispatched P line (place + j) before = [] := by
      cases j with
      | zero =>
          have hnothing := hcivil.peopled.untouched _ _ _ hfocus place (Nat.lt_succ_self place)
          simp [dispatched, hnothing]
      | succ j =>
          rw [dispatched, ← Nat.add_assoc, (hfresh j hj).2.2]
          rfl
    have hdelivers := hcivil.delivers line (place + j) hj
    rw [hnone, List.append_assoc] at hdelivers
    have hflight : S.inFlight P line (place + j + 1) = [] := by simp [inFlight, hfocus]
    rw [arrivals_append, (List.append_eq_nil_iff.mp hdelivers).1,
      step_arrivals hcivil.assembled hstepped, hflight]
    rfl

end Wiretap

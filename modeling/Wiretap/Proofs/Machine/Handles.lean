import Wiretap.Proofs.Machine.Lives
import Wiretap.Proofs.Machine.Play

/-!
# Where handles go

In a play a handle is only ever held and used by the receiver that it was made for: the handles of
the source belong to the first receiver of a line, and a tap is the handle of the receiver behind
it, once the tap has a handle itself. So nobody speaks to a tap from behind before the tap has been
spoken to from before, and a source sends nothing before it has given its handle.
-/

namespace Wiretap

variable {K : Kinds} {σ α ε : Type}

/-- The receiver that a call gives a handle or that uses one, and the handle. -/
def Call.handle? (P : Plan σ α ε) : Call α ε → Option (Nat × Nat × Handle)
  | .tap line place (.subscribe h) => some (line, place, h)
  | .client line (.subscribe h) => some (line, P.depth, h)
  | .control line position h _ => some (line, position, h)
  | _ => none

/-- The line whose first receiver must have got its handle before this call. -/
def Call.begun? (P : Plan σ α ε) : Call α ε → Option Nat
  | .tap line 0 s => if s.isSubscribe then none else some line
  | .client line s => if P.depth = 0 ∧ s.isSubscribe = false then some line else none
  | .control line 0 _ _ => some line
  | .emit line _ => some line
  | _ => none

/-- The line that the frame will go on to serve as its source. -/
def Frame.begun? : Frame α ε → Option Nat
  | .emitting line _ _ => some line
  | .completing line => some line
  | _ => none

namespace State

variable {P : Plan σ α ε} {S U : State σ α ε} {line place position : Nat}
  {events : List (Event α ε)}

/-- The receiver at a position may use the handle. -/
def Grants (S : State σ α ε) (line position : Nat) : Handle → Prop
  | .empty => True
  | .emission | .external _ => position = 0
  | .tap place => position = place + 1 ∧ S.hasHandle line place = true

/-- Is the first receiver of a line there? -/
def HasFirst (P : Plan σ α ε) (S : State σ α ε) (line : Nat) : Prop :=
  if 0 < P.depth then (S.tap? line 0).isSome = true else line < S.lines.length

/-- Who got a handle keeps it. -/
structure Grows (S U : State σ α ε) : Prop where
  taps : ∀ line place, S.hasHandle line place = true → U.hasHandle line place = true
  clients : ∀ line, (S.received? line 0).isSome = true → (U.received? line 0).isSome = true

theorem Grows.begun (h : Grows S U) (hbegun : S.hasBegun P line = true) :
    U.hasBegun P line = true := by
  unfold hasBegun at hbegun ⊢
  split
  next hpositive =>
    rw [if_pos hpositive] at hbegun
    exact h.taps line 0 hbegun
  next hnone =>
    rw [if_neg hnone] at hbegun
    exact h.clients line hbegun

theorem Grows.grants (h : Grows S U) {handle : Handle} (hgrants : S.Grants line position handle) :
    U.Grants line position handle := by
  cases handle with
  | tap place => exact ⟨hgrants.1, h.taps line place hgrants.2⟩
  | _ => exact hgrants

theorem hasHandle_eq (htap : U.tap? line place = S.tap? line place) :
    U.hasHandle line place = S.hasHandle line place := by
  rw [hasHandle, hasHandle, htap]

theorem hasHandle_of_source {t : Tap σ} (htap : S.tap? line place = some t)
    (hsource : t.source ≠ none) : S.hasHandle line place = true := by
  rw [hasHandle, htap]
  simpa [Option.isSome_iff_ne_none] using hsource

theorem source_of_hasHandle (h : S.hasHandle line place = true) :
    ∃ t, S.tap? line place = some t ∧ t.source ≠ none := by
  unfold hasHandle at h
  cases htap : S.tap? line place with
  | none => simp [htap] at h
  | some t => exact ⟨t, rfl, by simpa [htap, Option.isSome_iff_ne_none] using h⟩

theorem life_source {Ls : Context → Listener σ α ε} {self : Handle} {conditional : Bool}
    {manners : Tap.Life.Manners σ α ε} {now next : Tap.Life σ α ε}
    (hstep : Tap.Life.Step Ls self conditional manners now next) (hsource : now.tap.source ≠ none) :
    next.tap.source ≠ none := by
  cases hstep with
  | @serve t pending deeds input ambient hmanners =>
      obtain ⟨first, hfirst⟩ := Option.ne_none_iff_exists'.mp hsource
      have hsettled := Tap.serve_settled (Ls ambient) self conditional input hfirst
      rw [Tap.Life.take, hsettled.source]
      exact hsource
  | @resume t r pending deeds ambient b =>
      rw [Tap.Life.take, (Tap.resume_settled (Ls ambient) r b).source]
      exact hsource

theorem step_hasHandle (hassembled : S.Assembled P) (hstep : Stepped P S U events)
    (h : S.hasHandle line place = true) : U.hasHandle line place = true := by
  rcases step_progress hassembled hstep line place with
    ⟨htap, -, -⟩ | ⟨hplan, htap, hnow, hturn⟩ | ⟨hfocus, -, -, -, -⟩ | ⟨-, htap, -, -, -⟩
  · rwa [hasHandle_eq htap]
  · obtain ⟨t, ht, hsource⟩ := source_of_hasHandle h
    rw [htap] at ht
    cases ht
    apply hasHandle_of_source hnow
    exact life_source (hturn .any [] fun _ _ => trivial) hsource
  · have hnone := (hassembled.joining _ _ _ hfocus).before place (Nat.lt_succ_self place)
    rw [hasHandle, hnone] at h
    cases h
  · rwa [hasHandle_eq htap]

theorem received?_eq (hlines : U.lines = S.lines) (line nth : Nat) :
    U.received? line nth = S.received? line nth := by
  rw [received?, received?, hlines]

/-- A client that gets a handle has it from then on as the newest. -/
theorem receive_subscribe {handle : Handle} (hline : line < S.lines.length)
    (h : U.lines =
      S.lines.modify line (·.receive (.subscribe handle : Signal α (TapError ε)))) :
    U.received? line 0 = some handle ∧
      ∀ nth, U.received? line (nth + 1) = S.received? line nth := by
  obtain ⟨found, hfound⟩ : ∃ found, S.lines[line]? = some found := by simp [hline]
  have hnow : U.lines[line]? =
      some (found.receive (.subscribe handle : Signal α (TapError ε))) := by
    rw [h, List.getElem?_modify, hfound]
    simp
  constructor
  · simp [received?, hnow, Line.receive]
  · intro nth
    simp [received?, hnow, hfound, Line.receive]

theorem receive_received? {s : Signal α (TapError ε)} {l : Nat}
    (h : U.lines = S.lines.modify l (·.receive s)) (line : Nat) :
    (∀ nth, U.received? line nth = S.received? line nth) ∨
      l = line ∧ line < S.lines.length ∧ ∃ handle, s = .subscribe handle := by
  by_cases hnew : l = line ∧ line < S.lines.length ∧ ∃ handle, s = .subscribe handle
  · exact .inr hnew
  · left
    intro nth
    unfold received?
    rw [h, List.getElem?_modify]
    cases hfound : S.lines[line]? with
    | none => rfl
    | some found =>
        have hline := (List.getElem?_eq_some_iff.mp hfound).1
        by_cases hhere : l = line
        · cases s with
          | subscribe handle => exact absurd ⟨hhere, hline, handle, rfl⟩ hnew
          | _ => simp [hhere, Line.receive]
        · simp [hhere]

/-- In a step a client gets a signal, and nothing else happens, or to clients nothing happens. -/
theorem step_client (hstep : Stepped P S U events) :
    (∀ line, heardBy line events = [] ∧ ∀ nth, U.received? line nth = S.received? line nth) ∨
      ∃ l s, S.focus = .call (.client l s) ∧ U.lines = S.lines.modify l (·.receive s) ∧
        events = [.called (.client l s) S.ambient] := by
  have hset : ∀ {l p : Nat} {t : Tap σ}, U.lines = (S.setTap l p t).lines →
      ∀ line nth, U.received? line nth = S.received? line nth := fun hlines line nth =>
    (received?_eq hlines line nth).trans (setTap_received? _ line nth)
  cases hstep with
  | hear hfocus hlines hstack hnext hevents => exact .inr ⟨_, _, hfocus, hlines, hevents⟩
  | serve hfocus hinput hplan htap hturned hshows =>
      exact .inl fun line => ⟨hshows.clients line, hset hturned.lines line⟩
  | resume hfocus hstack hplan htap hturned hshows =>
      exact .inl fun line => ⟨hshows.clients line, hset hturned.lines line⟩
  | setUp hfocus hplan hlines hstack hnext hshows =>
      exact .inl fun line => ⟨hshows.clients line, hset hlines line⟩
  | refuse hfocus hplan hlines hstack hnext hfails hshows =>
      exact .inl fun line => ⟨hshows.clients line, received?_eq hlines line⟩
  | explain hfocus hstack hlines hrest hnext hquiet =>
      exact .inl fun line => ⟨hquiet.heardBy line, received?_eq hlines line⟩
  | callOut hfocus hcall hlines hstack hnext hquiet =>
      exact .inl fun line => ⟨hquiet.heardBy line, received?_eq hlines line⟩
  | endStream hfocus hlines hstack hnext hquiet =>
      exact .inl fun line => ⟨hquiet.heardBy line, received?_eq hlines line⟩
  | ended hfocus hstack hlines hrest hnext hs hquiet =>
      exact .inl fun line => ⟨hquiet.heardBy line, received?_eq hlines line⟩
  | handOver hfocus hstack hlines hsame hnext hquiet =>
      exact .inl fun line => ⟨hquiet.heardBy line, received?_eq hlines line⟩
  | startEmission hfocus hlines hstack hnext hquiet =>
      exact .inl fun line => ⟨hquiet.heardBy line, received?_of_bare hlines line⟩
  | emit hemitting hlines hframe hstack hnext hs hquiet =>
      exact .inl fun line => ⟨hquiet.heardBy line, received?_of_bare hlines line⟩
  | loop hemitting hlines hstack hnext hquiet =>
      exact .inl fun line => ⟨hquiet.heardBy line, received?_of_bare hlines line⟩
  | idle hfocus hcall hclient hlines hstack hnext hquiet =>
      exact .inl fun line => ⟨hquiet.heardBy line, received?_of_bare hlines line⟩
  | pop hfocus hstack hframe hlines hrest hnext hquiet =>
      exact .inl fun line => ⟨hquiet.heardBy line, received?_of_bare hlines line⟩

theorem move_received? {m : Move α ε} (hmove : Moved P S U m) (line nth : Nat) :
    U.received? line nth = S.received? line nth := by
  cases hmove with
  | subscribe hturn hlines =>
      exact (received?_eq hlines line nth).trans (addLine_received? _ line nth)
  | signal hturn hlines => exact received?_eq hlines line nth
  | control hturn hreceived hlines => exact received?_eq hlines line nth
  | direct hturn hlines => exact received?_eq hlines line nth
  | answer hturn hstack hlines => exact received?_eq hlines line nth

theorem step_grows (hassembled : S.Assembled P) (hstep : Stepped P S U events) : Grows S U where
  taps := fun _ _ h => step_hasHandle hassembled hstep h
  clients := by
    intro line hsome
    rcases step_client hstep with hsame | ⟨l, s, -, hlines, -⟩
    · rwa [(hsame line).2]
    · rcases receive_received? hlines line with hsame | ⟨rfl, hline, handle, rfl⟩
      · rwa [hsame]
      · rw [(receive_subscribe hline hlines).1]
        rfl

/-- A call passes on and uses handles where they belong, and comes from a source only after the
source has given its handle. -/
structure Admits (P : Plan σ α ε) (S : State σ α ε) (c : Call α ε) : Prop where
  grants : ∀ line position h, c.handle? P = some (line, position, h) → S.Grants line position h
  begun : ∀ line, c.begun? P = some line → S.hasBegun P line = true

/-- Handles are where they belong, and sources wait for the first receiver to have its handle. -/
structure Handled (P : Plan σ α ε) (S : State σ α ε) : Prop where
  held : ∀ line place t h, S.tap? line place = some t → t.source = some h → S.Grants line place h
  received : ∀ line nth h, S.received? line nth = some h → S.Grants line P.depth h
  called : ∀ c, S.focus = .call c → S.Admits P c
  serving : ∀ f ∈ S.stack, ∀ line, f.begun? = some line → S.hasBegun P line = true
  /-- Before an empty source ends the stream the first receiver gets its handle. -/
  ending : ∀ line e, .ending line e ∈ S.stack → S.hasBegun P line = true ∨
    S.focus = .call (P.sourceSignal line (.subscribe .empty)) ∧ S.HasFirst P line

theorem Grows.admits (h : Grows S U) {c : Call α ε} (hadmits : S.Admits P c) : U.Admits P c where
  grants := fun line position handle hhandle =>
    h.grants (hadmits.grants line position handle hhandle)
  begun := fun line hneeds => h.begun (hadmits.begun line hneeds)

namespace Admits

theorem join (position : Nat) (context : Context) : S.Admits P (.join line position context) where
  grants := by intro l p handle hhandle; cases hhandle
  begun := by intro l hneeds; cases hneeds

theorem emit (n : UInt64) (hbegun : S.hasBegun P line = true) : S.Admits P (.emit line n) where
  grants := by intro l p handle hhandle; cases hhandle
  begun := by intro l hneeds; cases hneeds; exact hbegun

theorem control {handle : Handle} {c : Control} (hgrants : S.Grants line position handle)
    (hbegun : position = 0 → S.hasBegun P line = true) :
    S.Admits P (.control line position handle c) where
  grants := by
    intro l p handle' hhandle
    cases hhandle
    exact hgrants
  begun := by
    intro l hneeds
    cases position with
    | zero =>
        cases hneeds
        exact hbegun rfl
    | succ position => cases hneeds

theorem of_focus {c : Call α ε} (h : S.Admits P c) (hnext : U.focus = .call c) :
    ∀ c', U.focus = .call c' → S.Admits P c' := by
  intro c' hcall
  rw [hnext] at hcall
  cases hcall
  exact h

/-- A tap may send its receiver anything but a handle that does not belong there. -/
theorem signal {s : Signal α (TapError ε)} (hplace : place < P.depth)
    (hsubscribe : ∀ handle, s = .subscribe handle → S.Grants line (place + 1) handle) :
    S.Admits P (P.signal line (place + 1) s) := by
  unfold Plan.signal
  split
  next hlt =>
    constructor
    · intro l p handle hhandle
      cases s <;> cases hhandle
      exact hsubscribe handle rfl
    · intro l hneeds
      cases hneeds
  next hend =>
    have hlast : P.depth = place + 1 := by omega
    constructor
    · intro l p handle hhandle
      cases s <;> cases hhandle
      rw [hlast]
      exact hsubscribe handle rfl
    · intro l hneeds
      simp [Call.begun?, hlast] at hneeds

/-- A source may send a handle of its own, and anything else when that is there. -/
theorem sourceSignal {s : Signal α ε}
    (hsubscribe : ∀ handle, s = .subscribe handle → S.Grants line 0 handle)
    (hother : s.isSubscribe = false → S.hasBegun P line = true) :
    S.Admits P (P.sourceSignal line s) := by
  unfold Plan.sourceSignal
  split
  next hpositive =>
    constructor
    · intro l p handle hhandle
      cases s <;> cases hhandle
      exact hsubscribe handle rfl
    · intro l hneeds
      cases s <;> cases hneeds <;> exact hother rfl
  next hnone =>
    have hdepth : P.depth = 0 := by omega
    constructor
    · intro l p handle hhandle
      cases s <;> cases hhandle
      rw [hdepth]
      exact hsubscribe handle rfl
    · intro l hneeds
      cases s <;> simp [Call.begun?, hdepth, Signal.mapError, Signal.isSubscribe] at hneeds <;>
        exact hneeds ▸ hother rfl

end Admits

namespace Handled

/-- While the first receiver is not just being given its handle, endings find that it has it. -/
theorem settled (h : S.Handled P)
    (hfocus : ∀ l s, S.focus ≠ .call (.tap l 0 s) ∧
      S.focus ≠ .call (.client l (s.mapError .source))) :
    ∀ line e, .ending line e ∈ S.stack → S.hasBegun P line = true := by
  intro line e hmem
  rcases h.ending line e hmem with hbegun | ⟨hcall, -⟩
  · exact hbegun
  · unfold Plan.sourceSignal at hcall
    split at hcall
    · exact absurd hcall (hfocus line (.subscribe .empty)).1
    · exact absurd hcall (hfocus line (.subscribe .empty)).2

/-- Nobody gets a handle to keep, and what is called next may be called. -/
theorem keep (h : S.Handled P) (hgrows : Grows S U)
    (htaps : ∀ l p t, U.tap? l p = some t → t.source ≠ none → S.tap? l p = some t)
    (hreceived : ∀ l n, U.received? l n = S.received? l n)
    (hcalled : ∀ c, U.focus = .call c → S.Admits P c)
    (hsettled : ∀ line e, .ending line e ∈ S.stack → S.hasBegun P line = true)
    (hframes : ∀ f ∈ U.stack, f ∈ S.stack ∨
      (∀ line, f.begun? = some line → S.hasBegun P line = true) ∧
        ∀ line e, f = .ending line e →
          U.focus = .call (P.sourceSignal line (.subscribe .empty)) ∧ U.HasFirst P line) :
    U.Handled P where
  held := by
    intro line place t handle htap hsource
    have hold := htaps line place t htap (by simp [hsource])
    exact hgrows.grants (h.held line place t handle hold hsource)
  received := by
    intro line nth handle hsome
    rw [hreceived] at hsome
    exact hgrows.grants (h.received line nth handle hsome)
  called := fun c hfocus => hgrows.admits (hcalled c hfocus)
  serving := by
    intro f hf line hneeds
    apply hgrows.begun
    rcases hframes f hf with hold | ⟨hnew, -⟩
    · exact h.serving f hold line hneeds
    · exact hnew line hneeds
  ending := by
    intro line e hmem
    rcases hframes _ hmem with hold | ⟨-, hnew⟩
    · exact .inl (hgrows.begun (hsettled line e hold))
    · exact .inr (hnew line e rfl)

theorem turned (h : S.Handled P) (hgrows : Grows S U) {rest : List (Frame α ε)}
    {t : Tap σ} {turn : Tap.Turn σ α ε} {given : Handle → Prop} (hplace : place < P.depth)
    (htap : S.tap? line place = some t) (hrest : ∀ f ∈ rest, f ∈ S.stack)
    (hturned : Turned P S rest line place turn U) (hhanding : turn.Handing t (.tap place) given)
    (hgiven : ∀ handle, given handle → S.Grants line place handle)
    (hfirst : ∀ l, S.focus = .call (P.sourceSignal l (.subscribe .empty)) →
      U.hasBegun P l = true) : U.Handled P := by
  have hroom : S.HasPlace line place := hasPlace_of_tap? (by rw [htap]; rfl)
  have hnow : U.tap? line place = some turn.tap := by
    rw [tap?_eq hturned.lines]
    exact setTap_tap?_self hroom _
  have hjoined : turn.tap.source ≠ none → U.hasHandle line place = true :=
    hasHandle_of_source hnow
  have hframes : ∀ f ∈ U.stack, f ∈ S.stack ∨ ∃ guard r, f = .tap line place guard r := by
    intro f hf
    rcases hturned.stack with ⟨-, hstack⟩ | ⟨guard, r, -, hstack⟩
    · exact .inl (hrest f (hstack ▸ hf))
    · rw [hstack] at hf
      rcases List.mem_cons.mp hf with rfl | hf
      · exact .inr ⟨guard, r, rfl⟩
      · exact .inl (hrest f hf)
  constructor
  · intro l p u handle hu hsource
    by_cases hhere : l = line ∧ p = place
    · obtain ⟨rfl, rfl⟩ := hhere
      rw [hnow] at hu
      cases hu
      rcases hhanding.source handle hsource with hold | hnew
      · exact hgrows.grants (h.held l p t handle htap hold)
      · exact hgrows.grants (hgiven handle hnew)
    · rw [tap?_eq hturned.lines, setTap_tap?_other hhere] at hu
      exact hgrows.grants (h.held l p u handle hu hsource)
  · intro l nth handle hsome
    rw [received?_eq hturned.lines, setTap_received?] at hsome
    exact hgrows.grants (h.received l nth handle hsome)
  · intro c hfocus
    have hnext := hturned.next
    cases hturn : turn.next <;> simp only [hturn] at hnext
    case answer b =>
      rw [hnext.2] at hfocus
      cases hfocus
    case down s r =>
      rw [hnext.2] at hfocus
      cases hfocus
      apply Admits.signal hplace
      rintro handle rfl
      rcases hhanding.down handle r hturn with rfl | ⟨rfl, hsource⟩
      · trivial
      · exact ⟨rfl, hjoined hsource⟩
    case up handle c' r =>
      rw [hnext.2] at hfocus
      cases hfocus
      obtain ⟨hsource, hused⟩ := hhanding.up handle c' r hturn
      apply Admits.control
      · apply hgrows.grants
        rcases hused with hold | hnew
        · exact h.held line place t handle htap hold
        · exact hgiven handle hnew
      · rintro rfl
        rw [hasBegun, if_pos hplace]
        exact hjoined hsource
  · intro f hf l hneeds
    rcases hframes f hf with hold | ⟨guard, r, rfl⟩
    · exact hgrows.begun (h.serving f hold l hneeds)
    · cases hneeds
  · intro l e hmem
    left
    rcases hframes _ hmem with hold | ⟨guard, r, heq⟩
    · rcases h.ending l e hold with hold | ⟨hcall, -⟩
      · exact hgrows.begun hold
      · exact hfirst l hcall
    · cases heq

/-- The first tap of a line that is called with a handle gets it. -/
theorem serve_first {c : Call α ε} {input : Tap.Input α ε} {p : TapPlan σ α ε} {t : Tap σ}
    (hfocus : S.focus = .call c) (hinput : c.input? = some (line, place, input))
    (htap : S.tap? line place = some t)
    (hturned : Turned P S S.stack line place (S.served p t line place input) U)
    {l : Nat} {handle : Handle} (hcall : S.focus = .call (P.sourceSignal l (.subscribe handle))) :
    U.hasBegun P l = true := by
  rw [hfocus] at hcall
  cases hcall
  unfold Plan.sourceSignal at hinput
  split at hinput
  next hpositive =>
    cases hinput
    have hroom : S.HasPlace line 0 := hasPlace_of_tap? (by rw [htap]; rfl)
    rw [hasBegun, if_pos hpositive]
    refine hasHandle_of_source ?_
      (Tap.onSubscribe_source (t := t) (p.listener (S.inside p t)) (.tap 0) handle)
    rw [tap?_eq hturned.lines]
    exact setTap_tap?_self hroom _
  next => cases hinput

theorem begun_emitting (h : S.Handled P) {rest : List (Frame α ε)}
    (hemitting : S.Emitting line rest) : S.hasBegun P line = true := by
  rcases hemitting with ⟨n, hfocus, -⟩ | ⟨b, n, last, -, hstack⟩
  · exact (h.called _ hfocus).begun line rfl
  · exact h.serving _ (hstack ▸ List.mem_cons_self) line rfl

/-- A client gets a signal, and keeps it if it is a handle. -/
theorem hear (h : S.Handled P) (hgrows : Grows S U) {s : Signal α (TapError ε)}
    (hfocus : S.focus = .call (.client line s))
    (hlines : U.lines = S.lines.modify line (·.receive s))
    (hstack : U.stack = .outside (.client line s) :: S.stack) (hnext : U.focus = .outside true) :
    U.Handled P where
  held := by
    intro l p t handle htap hsource
    rw [receive_tap? hlines] at htap
    exact hgrows.grants (h.held l p t handle htap hsource)
  received := by
    intro l nth handle hsome
    apply hgrows.grants
    rcases receive_received? hlines l with hsame | ⟨rfl, hline, new, rfl⟩
    · rw [hsame] at hsome
      exact h.received l nth handle hsome
    · obtain ⟨hnewest, hearlier⟩ := receive_subscribe hline hlines
      cases nth with
      | zero =>
          rw [hnewest] at hsome
          cases hsome
          exact (h.called _ hfocus).grants line P.depth handle rfl
      | succ nth =>
          rw [hearlier] at hsome
          exact h.received line nth handle hsome
  called := by simp [hnext]
  serving := by
    intro f hf l hneeds
    rw [hstack] at hf
    rcases List.mem_cons.mp hf with rfl | hf
    · cases hneeds
    · exact hgrows.begun (h.serving f hf l hneeds)
  ending := by
    intro l e hmem
    left
    rw [hstack] at hmem
    rcases List.mem_cons.mp hmem with heq | hmem
    · cases heq
    · rcases h.ending l e hmem with hold | ⟨hcall, hthere⟩
      · exact hgrows.begun hold
      · -- Without a tap the client itself gets the handle of the source.
        rw [hfocus] at hcall
        unfold Plan.sourceSignal at hcall
        split at hcall
        next => cases hcall
        next hnone =>
          cases hcall
          rw [HasFirst, if_neg hnone] at hthere
          rw [hasBegun, if_neg hnone]
          rw [(receive_subscribe hthere hlines).1]
          rfl

theorem step (h : S.Handled P) (hassembled : S.Assembled P) (hstep : Stepped P S U events) :
    U.Handled P := by
  have hgrows := step_grows hassembled hstep
  -- Most steps neither touch a tap nor let anybody keep a handle.
  have hkeep : U.lines.map Line.bare = S.lines.map Line.bare →
      (∀ c, U.focus = .call c → S.Admits P c) →
      (∀ line e, .ending line e ∈ S.stack → S.hasBegun P line = true) →
      (∀ f ∈ U.stack, f ∈ S.stack ∨ (∀ line, f.begun? = some line → S.hasBegun P line = true) ∧
        ∀ line e, f = .ending line e →
          U.focus = .call (P.sourceSignal line (.subscribe .empty)) ∧ U.HasFirst P line) →
      U.Handled P := fun hlines =>
    h.keep hgrows (fun l p t htap _ => (tap?_of_bare hlines l p).symm.trans htap)
      (received?_of_bare hlines)
  cases hstep with
  | @serve c line place input p t hfocus hinput hplan htap hturned =>
      have hplace : place < P.depth := (List.getElem?_eq_some_iff.mp hplan).1
      refine h.turned hgrows hplace htap (fun f hf => hf) hturned
        (Tap.serve_handing (p.listener _) (.tap place) _ input) ?_ fun l hcall =>
          serve_first hfocus hinput htap hturned hcall
      rintro handle rfl
      apply (h.called c hfocus).grants
      cases c with
      | tap l q s =>
          cases hinput
          rfl
      | control l q handle' ctl => cases handle' <;> cases hinput
      | _ => cases hinput
  | @resume b line place guard r rest p t hfocus hstack hplan htap hturned =>
      have hplace : place < P.depth := (List.getElem?_eq_some_iff.mp hplan).1
      refine h.turned hgrows hplace htap (fun f hf => hstack ▸ List.mem_cons_of_mem _ hf) hturned
        (Tap.resume_handing (p.listener _) (.tap place) r b) (fun _ hnone => hnone.elim) ?_
      simp [hfocus]
  | @setUp line place context p listener augmented guard hfocus hplan hlines hstack hnext =>
      have hjoining := hassembled.joining _ _ _ hfocus
      refine h.keep hgrows ?_ ?_ ?_ (h.settled (by simp [hfocus])) ?_
      · intro l q t htap hsource
        rw [tap?_eq hlines] at htap
        by_cases hhere : l = line ∧ q = place
        · obtain ⟨rfl, rfl⟩ := hhere
          rw [setTap_tap?_self (hassembled.hasPlace hjoining.started hjoining.inside)] at htap
          cases htap
          exact absurd rfl hsource
        · rwa [setTap_tap?_other hhere] at htap
      · intro l nth
        rw [received?_eq hlines, setTap_received?]
      · refine Admits.of_focus ?_ hnext
        exact .join _ _
      · intro f hf
        rw [hstack] at hf
        rcases List.mem_cons.mp hf with rfl | hf
        · exact .inr ⟨nofun, nofun⟩
        · exact .inl hf
  | @refuse line place context p f shown hfocus hplan hlines hstack hnext =>
      have hplace : place < P.depth := (List.getElem?_eq_some_iff.mp hplan).1
      refine hkeep (congrArg _ hlines) ?_ (h.settled (by simp [hfocus])) ?_
      · refine Admits.of_focus ?_ hnext
        apply Admits.signal hplace
        rintro handle heq
        cases heq
        trivial
      · intro f hf
        rw [hstack] at hf
        rcases List.mem_cons.mp hf with rfl | hf
        · exact .inr ⟨nofun, nofun⟩
        · exact .inl hf
  | @explain b line position f rest hfocus hstack hlines hrest hnext =>
      obtain ⟨-, place, rfl, hplace, -⟩ :=
        hassembled.refusing line position f (hstack ▸ List.mem_cons_self)
      refine hkeep (congrArg _ hlines) ?_ (h.settled (by simp [hfocus])) fun f hf =>
        .inl (hstack ▸ List.mem_cons_of_mem _ (hrest ▸ hf))
      refine Admits.of_focus ?_ hnext
      exact Admits.signal hplace nofun
  | hear hfocus hlines hstack hnext => exact h.hear hgrows hfocus hlines hstack hnext
  | @callOut c callback hfocus hcall hlines hstack hnext =>
      refine hkeep (congrArg _ hlines) (by simp [hnext]) (h.settled ?_) ?_
      · rcases hcall with ⟨l, q, id, ctl, rfl, -⟩ | ⟨l, context, rfl, -⟩ <;> simp [hfocus]
      · intro f hf
        rw [hstack] at hf
        rcases List.mem_cons.mp hf with rfl | hf
        · exact .inr ⟨nofun, nofun⟩
        · exact .inl hf
  | @endStream line context e hfocus hlines hstack hnext =>
      have hjoining := hassembled.joining _ _ _ hfocus
      refine hkeep (congrArg _ hlines) ?_ (h.settled (by simp [hfocus])) ?_
      · refine Admits.of_focus ?_ hnext
        apply Admits.sourceSignal
        · rintro handle heq
          cases heq
          trivial
        · exact nofun
      · intro f hf
        rw [hstack] at hf
        rcases List.mem_cons.mp hf with rfl | hf
        · refine .inr ⟨nofun, fun l e' heq => ?_⟩
          cases heq
          refine ⟨hnext, ?_⟩
          unfold HasFirst
          split
          next hpositive =>
            rw [tap?_eq hlines]
            exact hjoining.behind 0 (Nat.le_refl 0) hpositive
          next => exact hlines ▸ hjoining.started
        · exact .inl hf
  | @ended b line e rest s hfocus hstack hlines hrest hnext hs =>
      have hsettled := h.settled (by simp [hfocus])
      refine hkeep (congrArg _ hlines) ?_ hsettled fun f hf =>
        .inl (hstack ▸ List.mem_cons_of_mem _ (hrest ▸ hf))
      refine Admits.of_focus ?_ hnext
      apply Admits.sourceSignal
      · rintro handle rfl
        cases hs
      · exact fun _ => hsettled line e (hstack ▸ List.mem_cons_self)
  | @startEmission line context hfocus hlines hstack hnext =>
      -- The handle of an emission belongs to the first receiver, which is just being called.
      refine hkeep hlines ?_ (h.settled (by simp [hfocus])) fun f hf => .inl (hstack ▸ hf)
      refine Admits.of_focus ?_ hnext
      apply Admits.sourceSignal
      · rintro handle heq
        cases heq
        rfl
      · exact nofun
  | @emit line rest f s hemitting hlines hframe hstack hnext hs =>
      have hbegun := h.begun_emitting hemitting
      refine hkeep hlines ?_ (h.settled ?_) ?_
      · refine Admits.of_focus ?_ hnext
        apply Admits.sourceSignal
        · rintro handle rfl
          cases hs
        · exact fun _ => hbegun
      · rcases hemitting with ⟨n, hfocus, -⟩ | ⟨b, n, last, hfocus, -⟩ <;> simp [hfocus]
      · intro g hg
        rw [hstack] at hg
        rcases List.mem_cons.mp hg with rfl | hg
        · right
          rcases hframe with ⟨n, last, rfl⟩ | rfl <;>
            exact ⟨fun l hneeds => by cases hneeds; exact hbegun, nofun⟩
        · exact .inl (Assembled.emitting_stack hemitting g hg)
  | @loop line rest n hemitting hlines hstack hnext =>
      have hbegun : S.hasBegun P line = true := by
        rcases hemitting with hemitting | ⟨position, k, hfocus, -⟩
        · exact h.begun_emitting hemitting
        · have hadmits := h.called _ hfocus
          have hfirst : position = 0 := hadmits.grants line position .emission rfl
          subst hfirst
          exact hadmits.begun line rfl
      refine hkeep hlines ?_ (h.settled ?_) ?_
      · refine Admits.of_focus ?_ hnext
        exact .emit n hbegun
      · rcases hemitting with hemitting | ⟨position, k, hfocus, -⟩
        · rcases hemitting with ⟨n, hfocus, -⟩ | ⟨b, n, last, hfocus, -⟩ <;> simp [hfocus]
        · simp [hfocus]
      · intro f hf
        rw [hstack] at hf
        left
        rcases hemitting with hemitting | ⟨position, k, -, hsame⟩
        · exact Assembled.emitting_stack hemitting f hf
        · exact hsame ▸ hf
  | @idle c b hfocus hcall hclient hlines hstack hnext =>
      refine hkeep hlines (by simp [hnext]) ?_ fun f hf => .inl (hstack ▸ hf)
      intro line e hmem
      rcases h.ending line e hmem with hbegun | ⟨hfirst, hthere⟩
      · exact hbegun
      · -- The handle does not get lost, for the first receiver is there.
        rw [hfocus] at hfirst
        cases hfirst
        unfold Plan.sourceSignal at hcall hclient
        split at hcall
        next hpositive =>
          rw [HasFirst, if_pos hpositive] at hthere
          obtain ⟨p, hplan⟩ := hassembled.planned hthere
          rcases hcall line 0 _ rfl with hnone | hnone
          · rw [hplan] at hnone
            cases hnone
          · rw [hnone] at hthere
            cases hthere
        next hnone =>
          rw [if_neg hnone] at hclient
          exact absurd rfl (hclient line _)
  | @pop b b' f rest hfocus hstack hframe hlines hrest hnext =>
      exact hkeep hlines (by simp [hnext]) (h.settled (by simp [hfocus])) fun f hf =>
        .inl (hstack ▸ List.mem_cons_of_mem _ (hrest ▸ hf))
  | @handOver b hfocus hstack hlines hsame hnext =>
      exact hkeep (congrArg _ hlines) (by simp [hnext]) (h.settled (by simp [hfocus])) fun f hf =>
        .inl (hsame ▸ hf)

theorem move {m : Move α ε} (h : S.Handled P) (hallows : S.allows P m = true)
    (hmove : Moved P S U m) : U.Handled P := by
  have hkeep : (∀ l p, U.tap? l p = S.tap? l p) → (∀ l n, U.received? l n = S.received? l n) →
      (∀ c, U.focus = .call c → S.Admits P c) → (∀ f ∈ U.stack, f ∈ S.stack) →
      ∀ b, S.focus = .outside b → U.Handled P := by
    intro htaps hreceived hcalled hframes b hfocus
    have hgrows : Grows S U := by
      constructor
      · intro l p hhandle
        rwa [hasHandle_eq (htaps l p)]
      · intro l hsome
        rwa [hreceived]
    exact h.keep hgrows (fun l p t htap _ => (htaps l p).symm.trans htap) hreceived hcalled
      (h.settled (by simp [hfocus])) fun f hf => .inl (hframes f hf)
  cases hmove with
  | subscribe hturn hlines hstack hnext =>
      refine hkeep (fun l p => (tap?_eq hlines l p).trans (addLine_tap? _ l p))
        (fun l n => (received?_eq hlines l n).trans (addLine_received? _ l n)) ?_
        (fun f hf => hstack ▸ hf) _ hturn
      refine Admits.of_focus ?_ hnext
      exact .join _ _
  | @signal line s b hturn hlines hstack hnext =>
      refine hkeep (tap?_eq hlines) (received?_eq hlines) ?_ (fun f hf => hstack ▸ hf) _ hturn
      refine Admits.of_focus ?_ hnext
      apply Admits.sourceSignal
      · rintro handle rfl
        simp only [allows, Bool.and_eq_true] at hallows
        cases handle with
        | empty => trivial
        | external id => rfl
        | _ => cases hallows.2
      · intro hs
        cases s with
        | subscribe handle => cases hs
        | _ =>
            simp only [allows, Bool.and_eq_true] at hallows
            exact hallows.2
  | @control line nth ctl handle b hturn hreceived hlines hstack hnext =>
      refine hkeep (tap?_eq hlines) (received?_eq hlines) ?_ (fun f hf => hstack ▸ hf) _ hturn
      refine Admits.of_focus ?_ hnext
      apply Admits.control
      · exact h.received line nth handle hreceived
      · intro hdepth
        have hnone : ¬0 < P.depth := by omega
        rw [hasBegun, if_neg hnone]
        -- Whoever has a handle has a newest one.
        unfold received? at hreceived ⊢
        cases hline : S.lines[line]? with
        | none => simp [hline] at hreceived
        | some found =>
            cases hlist : found.received with
            | nil => simp [hline, hlist] at hreceived
            | cons newest earlier => simp [hlist]
  | direct => cases hallows
  | answer hturn hstack hlines hrest hnext =>
      refine hkeep (tap?_eq hlines) (received?_eq hlines) (by simp [hnext]) (fun f hf => ?_) _ hturn
      rw [hstack]
      exact List.mem_cons_of_mem _ (hrest ▸ hf)

theorem start (ambient : Context) : (State.start P ambient).Handled P := by
  constructor <;> simp [State.start, tap?, received?]

end Handled

end State

end Wiretap

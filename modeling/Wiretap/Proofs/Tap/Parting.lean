import Wiretap.Proofs.Tap.Account
import Wiretap.Proofs.Tap.Calls
import Wiretap.Proofs.Tap.Candour
import Wiretap.Proofs.Tap.Stream

/-!
# How a tap parts with its receiver

A receiver that is let go has been sent its last signal, or has cancelled. From then on it gets
nothing. A cancellation that is not refused is passed back to the source before the last hook runs.
If a hook of the call fails, the receiver is told, once, unless it had been let go before; then the
fault is dropped. A request whose hook fails ends in the same way, only that the source is cancelled
on the tap's own account.
-/

namespace Wiretap

/-- A receiver gets one handle only. -/
theorem Signal.Lawful.handle_unique {α ε : Type} {signals : List (Signal α ε)} {h h' : Handle}
    (hlawful : Signal.Lawful signals) (hmem : .subscribe h ∈ signals)
    (hmem' : .subscribe h' ∈ signals) : h = h' := by
  obtain ⟨first, last, rfl⟩ := List.append_of_mem hmem
  have hone := hlawful.handle
  rw [List.countP_append, List.countP_cons_of_pos rfl] at hone
  have hnone : ∀ s ∈ first ++ last, s.isSubscribe = false := by
    simpa [List.countP_eq_zero, or_imp, forall_and] using
      (show first.countP Signal.isSubscribe = 0 ∧ last.countP Signal.isSubscribe = 0 by omega)
  simp only [List.mem_append, List.mem_cons] at hmem' hnone
  rcases hmem' with hmem' | heq | hmem'
  · cases hnone _ (.inl hmem')
  · cases heq
    rfl
  · cases hnone _ (.inr hmem')

namespace Tap

variable {K : Kinds} {σ α ε : Type} {t : Tap σ} (L : Listener σ α ε)

/-! ## Calls of the receiver -/

/-- What becomes of a fault that ends the stream: the receiver is told, if it is attached. -/
def telling (attached : Bool) (f : Fault) : Doing α ε :=
  if attached then .sent (.error (.listener f)) else .act (.droppedError (.tapped (.listener f)))

/-- What the receiver hears of such a fault. -/
def lastWord (attached : Bool) (fault : Option Fault) : List (Signal α (TapError ε)) :=
  if attached then fault.toList.map fun f => .error (.listener f) else []

/-- What a tap with a source does in a call by which it lets its receiver go, and the fault, if any,
that is then told or dropped. -/
inductive Parts : Control → List (Doing α ε) → Option Fault → Prop
  /-- The hook for a request fails: the source is cancelled. -/
  | rejected (n : UInt64) (cause : Cause) :
    Parts (.request n) [.act (.ran (.request n) (some cause)), .used .cancel,
      .act (.reported ((Hook.request n : Hook α ε).fault cause))]
      (some ((Hook.request n : Hook α ε).fault cause))
  /-- The hook for the cancellation fails: the source is left alone. -/
  | refused (cause : Cause) :
    Parts .cancel [.act (.ran .cancel (some cause)),
      .act (.reported ((Hook.cancel : Hook α ε).fault cause))]
      (some ((Hook.cancel : Hook α ε).fault cause))
  /-- The source is cancelled. The last hook has been settled before. -/
  | granted : Parts .cancel [.act (.ran .cancel none), .used .cancel] none
  /-- The source is cancelled, and then the last hook runs. -/
  | concluded :
    Parts .cancel [.act (.ran .cancel none), .used .cancel, .act (.ran (.finally .cancel) none)]
      none
  /-- The last hook fails: the source is cancelled once more. -/
  | spoiled (cause : Cause) :
    Parts .cancel [.act (.ran .cancel none), .used .cancel,
      .act (.ran (.finally .cancel) (some cause)), .used .cancel,
      .act (.reported ((Hook.finally .cancel : Hook α ε).fault cause))]
      (some ((Hook.finally .cancel : Hook α ε).fault cause))

/-- What the tap has done in such a call when it waits for a cancellation of its source, and where
it will resume. -/
inductive Awaits : Control → List (Doing α ε) → Resume α ε → Prop
  | rejected (n : UInt64) (cause : Cause) :
    Awaits (.request n) [.act (.ran (.request n) (some cause)), .used .cancel]
      (.failed ((Hook.request n : Hook α ε).fault cause))
  | released : Awaits .cancel [.act (.ran .cancel none), .used .cancel] .released
  | spoiled (cause : Cause) :
    Awaits .cancel [.act (.ran .cancel none), .used .cancel,
      .act (.ran (.finally .cancel) (some cause)), .used .cancel]
      (.failed ((Hook.finally .cancel : Hook α ε).fault cause))

theorem Awaits.waits {c : Control} {doings : List (Doing α ε)} {r : Resume α ε}
    (h : Awaits c doings r) : r.waits = true := by
  cases h <;> rfl

/-- A turn in such a call, after these doings, of a tap whose receiver is attached or not. -/
inductive Turn.Parting (c : Control) (attached : Bool) (doings : List (Doing α ε))
    (turn : Turn σ α ε) : Prop
  /-- The source is cancelled. -/
  | waits {h : Handle} {r : Resume α ε} (hnext : turn.next = .up h .cancel r)
    (hsource : turn.tap.source = some h) (hattached : turn.tap.attached = attached)
    (hawaits : Awaits c (doings ++ turn.doings) r)
  /-- The receiver is told of a fault. -/
  | tells {body : List (Doing α ε)} {f : Fault}
    (hnext : turn.next = .down (.error (.listener f)) .leave)
    (hdetached : turn.tap.attached = false) (hattached : attached = true)
    (hparts : Parts c body (some f))
    (hdoings : doings ++ turn.doings = body ++ [telling attached f])
  /-- The call returns. -/
  | ends {body : List (Doing α ε)} {fault : Option Fault} (hnext : turn.next = .answer true)
    (hdetached : turn.tap.attached = false) (hsilent : attached = true → fault = none)
    (hparts : Parts c body fault)
    (hdoings : doings ++ turn.doings = body ++ fault.toList.map (telling attached))

/-- An act before the turn belongs to what has been done before. -/
theorem Turn.Parting.after {c : Control} {attached : Bool} {doings : List (Doing α ε)}
    {turn : Turn σ α ε} {act : Act α ε} (h : turn.Parting c attached (doings ++ [.act act])) :
    (turn.after act).Parting c attached doings := by
  have hmove : ∀ more : List (Doing α ε), doings ++ [.act act] ++ turn.doings = more →
      doings ++ (turn.after act).doings = more := by
    rintro more rfl
    simp [Turn.doings]
  cases h with
  | waits hnext hsource hattached hawaits =>
      exact .waits hnext hsource hattached (hmove _ rfl ▸ hawaits)
  | tells hnext hdetached hattached hparts hdoings =>
      exact .tells hnext hdetached hattached hparts (hmove _ hdoings)
  | ends hnext hdetached hsilent hparts hdoings =>
      exact .ends hnext hdetached hsilent hparts (hmove _ hdoings)

/-- The source has been cancelled, as far as that has to be, and a fault is left. -/
theorem failed_parting {c : Control} {doings : List (Doing α ε)} {f : Fault}
    (hparts : Parts c (doings ++ [.act (.reported f)]) (some f)) :
    (t.failed L f).Parting c t.attached doings := by
  unfold failed report terminate
  dsimp only
  split
  next hattached =>
    refine .tells rfl rfl hattached hparts ?_
    simp [Turn.doings, Turn.after, down, Next.doings, telling, hattached]
  next hattached =>
    refine .ends rfl rfl (fun hnow => absurd hnow hattached) hparts ?_
    simp [Turn.doings, Turn.after, dropError, finish, reply, Next.doings, telling, hattached]

variable {h : Handle}

/-- The receiver cancels. -/
theorem onCancel_parting (hsource : t.source = some h) :
    (t.onCancel L).Parting .cancel t.attached [] := by
  unfold onCancel runHook
  rcases L.run t.listener .cancel with ⟨listener, _ | cause⟩
  · simp only [cancelSource, hsource]
    exact .waits rfl rfl rfl .released
  · exact (failed_parting L (t := { t with listener }) (.refused cause)).after

/-- The receiver asks for items, and the hook for that fails. -/
theorem onRequest_parting (hsource : t.source = some h) {n : UInt64}
    (hn : Demand.isPositive n = true) {cause : Cause}
    (hfails : (L.run t.listener (.request n)).2 = some cause) :
    (t.onRequest L n).Parting (.request n) t.attached [] := by
  unfold onRequest runHook
  rw [if_pos hn]
  rcases hrun : L.run t.listener (.request n : Hook α ε) with ⟨listener, _ | cause'⟩
  · rw [hrun] at hfails
    cases hfails
  · simp only [fail, cancelSource, hsource]
    exact .waits rfl rfl rfl (.rejected n cause')

/-- The source has been cancelled. -/
theorem resume_parting (hsource : t.source = some h) {c : Control} {doings : List (Doing α ε)}
    {r : Resume α ε} (b : Bool) (hawaits : Awaits c doings r) :
    (t.resume L r b).Parting c t.attached doings := by
  cases hawaits with
  | rejected n cause => exact failed_parting L (.rejected n cause)
  | spoiled cause => exact failed_parting L (.spoiled cause)
  | released =>
      simp only [resume, released, runFinally]
      split
      · exact .ends rfl rfl (fun _ => rfl) .granted rfl
      · unfold runHook
        rcases L.run t.listener (.finally .cancel) with ⟨listener, _ | cause⟩
        · exact .ends rfl rfl (fun _ => rfl) .concluded rfl
        · simp only [fail, cancelSource, hsource]
          exact .waits rfl rfl rfl (.spoiled cause)

/-- Nothing is asked for, or what is asked for is passed on, or the receiver is let go. -/
theorem onRequest_cases (hsource : t.source = some h) (n : UInt64) :
    (t.onRequest L n = t.dropError (.violation (.nonPositiveRequest n)) ∧
        Demand.isPositive n = false) ∨
      (∃ listener, t.onRequest L n =
        ⟨[.ran (.request n) none], { t with listener }, .up h (.request n) .leave⟩) ∨
      ∃ cause, (L.run t.listener (.request n)).2 = some cause ∧
        (t.onRequest L n).Parting (.request n) t.attached [] := by
  cases hn : Demand.isPositive n with
  | false => exact .inl ⟨by rw [onRequest, if_neg (by simp [hn])], rfl⟩
  | true =>
      cases hfails : (L.run t.listener (.request n : Hook α ε)).2 with
      | some cause => exact .inr (.inr ⟨cause, rfl, onRequest_parting L hsource hn hfails⟩)
      | none =>
          refine .inr (.inl ⟨(L.run t.listener (.request n)).1, ?_⟩)
          simp [onRequest, hn, runHook, hfails, hsource, Turn.after]

/-! ## Lives -/

/-- Will the tap, when it resumes, let its receiver go in a call of the receiver? -/
def Resume.parts : Resume α ε → Bool
  | .released | .failed _ => true
  | _ => false

theorem Awaits.parts {c : Control} {doings : List (Doing α ε)} {r : Resume α ε}
    (h : Awaits c doings r) : r.parts = true := by
  cases h <;> rfl

theorem Awaits.isExcuse {c : Control} {doings : List (Doing α ε)} {r : Resume α ε}
    (h : Awaits c doings r) : r.isExcuse = false := by
  cases h <;> rfl

theorem Resume.waits_of_parts {r : Resume α ε} (h : r.parts = true) : r.waits = true := by
  cases r with
  | released => rfl
  | failed f => rfl
  | _ => cases h

/-- Has the hook for a cancellation ever succeeded? -/
def granted (deeds : List (Deed α ε)) : Prop := .acted (.ran .cancel none) ∈ deeds

theorem granted_append {first second : List (Deed α ε)} :
    granted (first ++ second) ↔ granted first ∨ granted second := List.mem_append

theorem granted_turn_deeds {turn : Turn σ α ε} :
    granted turn.deeds ↔ .ran .cancel none ∈ turn.acts := by
  refine ⟨Turn.acts_of_deeds, fun h => ?_⟩
  exact List.mem_append_left _ (List.mem_map_of_mem h)

namespace Life

variable {turn : Turn σ α ε} {pending : List (Resume α ε)} {deeds : List (Deed α ε)}
  {l l' : Life σ α ε} {self : Handle} {conditional : Bool}

/-- The receiver is let go with its last signal, or with an excuse that is still owed, or because it
has cancelled. -/
structure Parted (l : Life σ α ε) : Prop where
  left : l.tap.attached = false → (∃ s ∈ sent l.deeds, s.isTerminal = true) ∨ granted l.deeds ∨
    ∃ r ∈ l.pending, r.isExcuse = true
  released : .released ∈ l.pending → granted l.deeds
  excuse : ∀ r ∈ l.pending, r.isExcuse = true → .subscribe .empty ∈ sent l.deeds

/-- When the receiver has cancelled it is let go, at the latest when the source has been
cancelled. -/
def Parts (l : Life σ α ε) : Prop :=
  granted l.deeds → l.tap.attached = false ∨ ∃ r ∈ l.pending.head?, r.parts = true

theorem Newborn.parted (h : l.Newborn) : l.Parted ∧ l.Parts := by
  obtain ⟨⟨listener, context, htap⟩, hpending, hdeeds⟩ := h
  refine ⟨⟨?_, by simp [hpending], by simp [hpending]⟩, ?_⟩
  · simp [htap, Tap.start]
  · rcases hdeeds with hdeeds | hdeeds <;> simp [Parts, granted, hdeeds]

namespace Parted

theorem received (h : Parted ⟨t, pending, deeds⟩) (input : Input α ε) :
    Parted ⟨t, pending, deeds ++ [.received input]⟩ where
  left := by simpa [granted, Deed.sent?] using h.left
  released := by simpa [granted] using h.released
  excuse := by simpa [Deed.sent?] using h.excuse

theorem tail {r : Resume α ε} (h : Parted ⟨t, r :: pending, deeds⟩) (hr : r.isExcuse = false) :
    Parted ⟨t, pending, deeds⟩ where
  left := by simpa [hr] using h.left
  released hmem := h.released (List.mem_cons_of_mem _ hmem)
  excuse r' hr' := h.excuse r' (List.mem_cons_of_mem _ hr')

/-- A turn after which the receiver is attached as before, or has been let go for a reason. -/
theorem take (h : Parted ⟨t, pending, deeds⟩)
    (hleft : turn.tap.attached = false → t.attached = false ∨
      (∃ s ∈ sent turn.next.deeds, s.isTerminal = true) ∨ granted (deeds ++ turn.deeds) ∨
        ∃ r ∈ turn.next.resume?, r.isExcuse = true)
    (hreleased : .released ∈ turn.next.resume? → granted (deeds ++ turn.deeds))
    (hexcuse : ∀ r ∈ turn.next.resume?, r.isExcuse = true →
      .subscribe .empty ∈ sent turn.next.deeds) : (Life.take ⟨t, pending, deeds⟩ turn).Parted where
  left hnow := by
    simp only [Life.take, sent_append, sent_turn_deeds, List.mem_append, Option.mem_toList]
    rcases hleft hnow with hthen | ⟨s, hs, hterminal⟩ | hgranted | ⟨r, hr, hexcuse⟩
    · rcases h.left hthen with ⟨s, hs, hterminal⟩ | hgranted | ⟨r, hr, hexcuse⟩
      · exact .inl ⟨s, .inl hs, hterminal⟩
      · exact .inr (.inl (granted_append.mpr (.inl hgranted)))
      · exact .inr (.inr ⟨r, .inr hr, hexcuse⟩)
    · exact .inl ⟨s, .inr hs, hterminal⟩
    · exact .inr (.inl hgranted)
    · exact .inr (.inr ⟨r, .inl hr, hexcuse⟩)
  released hmem := by
    rcases List.mem_append.mp hmem with hmem | hmem
    · exact hreleased (Option.mem_toList.mp hmem)
    · exact granted_append.mpr (.inl (h.released hmem))
  excuse r hr hexcused := by
    simp only [Life.take, sent_append, sent_turn_deeds, List.mem_append]
    rcases List.mem_append.mp hr with hr | hr
    · exact .inr (hexcuse r (Option.mem_toList.mp hr) hexcused)
    · exact .inl (h.excuse r hr hexcused)

theorem take_candid (h : Parted ⟨t, pending, deeds⟩) (hturn : turn.Candid t.attached) :
    (Life.take ⟨t, pending, deeds⟩ turn).Parted := by
  refine h.take (fun hnow => ?_) (fun hmem => absurd hmem hturn.resume) hturn.excuse
  cases hthen : t.attached with
  | false => exact .inl rfl
  | true => exact .inr ((hturn.told hthen hnow).imp_right .inr)

/-- A turn in a call by which the receiver is let go. What has been done in the call before can be
seen. -/
theorem take_parting (h : Parted ⟨t, pending, deeds⟩) {c : Control} {doings : List (Doing α ε)}
    (hturn : turn.Parting c t.attached doings)
    (hdoings : .act (.ran .cancel none) ∈ doings → granted deeds) :
    (Life.take ⟨t, pending, deeds⟩ turn).Parted ∧ (Life.take ⟨t, pending, deeds⟩ turn).Parts := by
  have hgranted : .act (.ran .cancel none) ∈ doings ++ turn.doings →
      granted (deeds ++ turn.deeds) := by
    intro hmem
    rw [granted_append, granted_turn_deeds]
    refine (List.mem_append.mp hmem).imp hdoings fun hmem => ?_
    rcases List.mem_append.mp hmem with hmem | hmem
    · simpa using hmem
    · cases hnext : turn.next <;> simp [hnext, Next.doings] at hmem
  cases hturn with
  | waits hnext hsource hattached hawaits =>
      constructor
      · refine h.take (fun hnow => .inl (hattached ▸ hnow)) (fun hmem => ?_) ?_
        · obtain rfl : _ = Resume.released := by simpa [hnext, Next.resume?] using hmem
          refine hgranted ?_
          generalize doings ++ turn.doings = done at hawaits
          cases hawaits
          exact List.mem_cons_self
        · intro r hr hexcuse
          obtain rfl : _ = r := by simpa [hnext, Next.resume?] using hr
          rw [hawaits.isExcuse] at hexcuse
          cases hexcuse
      · exact fun _ => .inr ⟨_, by simp [Life.take, hnext, Next.resume?], hawaits.parts⟩
  | tells hnext hdetached hattached hparts hdone =>
      refine ⟨h.take (fun _ => .inr (.inl ?_)) ?_ ?_, fun _ => .inl hdetached⟩
      · exact ⟨_, by rw [hnext]; exact List.mem_singleton_self _, rfl⟩
      · simp [hnext, Next.resume?]
      · simp [hnext, Next.resume?, Resume.isExcuse]
  | ends hnext hdetached hsilent hparts hdone =>
      refine ⟨h.take (fun _ => ?_) ?_ ?_, fun _ => .inl hdetached⟩
      · cases hthen : t.attached with
        | false => exact .inl rfl
        | true =>
            -- Nothing is told, so the cancellation has been granted.
            obtain rfl := hsilent hthen
            refine .inr (.inr (.inl (hgranted ?_)))
            rw [hdone]
            cases hparts <;> exact List.mem_cons_self
      · simp [hnext, Next.resume?]
      · simp [hnext, Next.resume?]

end Parted

/-- A turn of a tap that does not grant a cancellation. -/
theorem Parts.take (hthen : granted deeds → t.attached = false)
    (hdetached : t.attached = false → turn.tap.attached = false)
    (hacts : .ran .cancel none ∉ turn.acts) : (Life.take ⟨t, pending, deeds⟩ turn).Parts := by
  intro hgranted
  rcases granted_append.mp hgranted with hgranted | hgranted
  · exact .inl (hdetached (hthen hgranted))
  · exact absurd (granted_turn_deeds.mp hgranted) hacts

/-- A receiver whose cancellation has been granted is let go, unless the tap is to do so next. -/
theorem Parts.detached (h : Parts ⟨t, pending, deeds⟩)
    (hhead : ∀ r ∈ pending.head?, r.parts = false) : granted deeds → t.attached = false := by
  intro hgranted
  rcases h hgranted with hthen | ⟨r, hr, hparts⟩
  · exact hthen
  · rw [hhead r hr] at hparts
    cases hparts

/-- While a tap next to the source is called it waits for no cancellation. -/
theorem parts_of_courteous {input : Input α ε} (hinput : Courteous 0 ⟨t, pending, deeds⟩ input) :
    ∀ r ∈ pending.head?, r.parts = false := by
  intro r hr
  by_contra hparts
  rw [Bool.not_eq_false] at hparts
  exact absurd (hinput.waiting r hr (Resume.waits_of_parts hparts)).1 (Nat.lt_irrefl 0)

/-- The receiver of a tap next to the source uses it only when the tap has its handle. -/
theorem source_of_courteous {c : Control}
    (hinput : Courteous 0 ⟨t, pending, deeds⟩ (.control c : Input α ε)) :
    ∃ handle, t.source = some handle := by
  cases hsource : t.source with
  | some handle => exact ⟨handle, rfl⟩
  | none =>
      rcases (hinput.opening hsource).2 with hinput | ⟨hplace, -⟩
      · cases hinput
      · cases hplace

variable {L : Listener σ α ε} {Ls : Context → Listener σ α ε}

theorem Parted.serve (hparted : Parted ⟨t, pending, deeds⟩) (hparts : Parts ⟨t, pending, deeds⟩)
    {input : Input α ε} (hinput : Courteous 0 ⟨t, pending, deeds⟩ input) :
    (Life.take ⟨t, pending, deeds ++ [.received input]⟩
        (t.serve L self conditional input)).Parted ∧
      (Life.take ⟨t, pending, deeds ++ [.received input]⟩
        (t.serve L self conditional input)).Parts := by
  have hreceived := hparted.received input
  have hthen : granted (deeds ++ [.received input]) → t.attached = false := by
    simpa [granted] using hparts.detached (parts_of_courteous hinput)
  cases input with
  | signal s =>
      have hturn := receive_candid (t := t) L self conditional s
      exact ⟨hreceived.take_candid hturn, Parts.take hthen hturn.detached hturn.cancel⟩
  | control c =>
      obtain ⟨handle, hsource⟩ := source_of_courteous hinput
      cases c with
      | cancel => exact hreceived.take_parting (onCancel_parting L hsource) (by simp)
      | request n =>
          rcases onRequest_cases (t := t) L hsource n with ⟨hturn, -⟩ | ⟨listener, hturn⟩ |
            ⟨cause, -, hturn⟩
          · have hcandid := dropError_candid (α := α) (t := t)
              (.violation (.nonPositiveRequest n) : Undelivered ε)
            rw [Tap.serve, obey, hturn]
            exact ⟨hreceived.take_candid hcandid, Parts.take hthen hcandid.detached hcandid.cancel⟩
          · rw [Tap.serve, obey, hturn]
            refine ⟨hreceived.take .inl ?_ ?_, Parts.take hthen id (by simp)⟩
            · simp [Next.resume?]
            · simp [Next.resume?, Resume.isExcuse]
          · exact hreceived.take_parting hturn (by simp)

theorem Parted.resume {r : Resume α ε} (hparted : Parted ⟨t, r :: pending, deeds⟩)
    (hparts : Parts ⟨t, r :: pending, deeds⟩) (hsource : t.source ≠ none) (b : Bool) :
    (Life.take ⟨t, pending, deeds⟩ (t.resume L r b)).Parted ∧
      (Life.take ⟨t, pending, deeds⟩ (t.resume L r b)).Parts := by
  cases hexcuse : r.isExcuse with
  | true =>
      obtain ⟨f, rfl⟩ : ∃ f, r = .excused f := by
        cases r with
        | excused f => exact ⟨f, rfl⟩
        | _ => cases hexcuse
      refine ⟨⟨fun _ => .inl ⟨.error (.listener f), ?_, rfl⟩, ?_, ?_⟩,
        Parts.take (hparts.detached (by simp [Resume.parts])) id (by simp [Tap.resume, down])⟩
      · simp [Life.take, Tap.resume, down, Next.deeds, Deed.sent?]
      · intro hmem
        have hmem : .released ∈ pending := by
          simpa [Life.take, Tap.resume, down, Next.resume?] using hmem
        exact granted_append.mpr (.inl (hparted.released (List.mem_cons_of_mem _ hmem)))
      · intro r hr hexcused
        have hmem : r ∈ pending := by
          rcases List.mem_append.mp hr with hr | hr
          · obtain rfl : r = .leave := by simpa [Tap.resume, down, Next.resume?] using hr
            cases hexcused
          · exact hr
        simp only [Life.take, sent_append, List.mem_append]
        exact .inl (hparted.excuse r (List.mem_cons_of_mem _ hmem) hexcused)
  | false =>
      have htail := hparted.tail hexcuse
      cases hpart : r.parts with
      | false =>
          have hturn := resume_candid (t := t) L b hexcuse (by rintro rfl; cases hpart)
          exact ⟨htail.take_candid hturn,
            Parts.take (hparts.detached (by simp [hpart])) hturn.detached hturn.cancel⟩
      | true =>
          obtain ⟨handle, hhandle⟩ := Option.ne_none_iff_exists'.mp hsource
          cases r with
          | released =>
              exact htail.take_parting (resume_parting L hhandle b .released)
                fun _ => hparted.released List.mem_cons_self
          | failed f =>
              have hturn := failed_candid (t := t) L f
              exact ⟨htail.take_candid hturn, fun _ => .inl (terminate_attached _)⟩
          | _ => cases hpart

/-- Next to the source both are kept. -/
theorem Parted.step (haccounted : l.Accounted) (hparted : l.Parted) (hparts : l.Parts)
    (hstep : Step Ls self conditional (Courteous 0) l l') : l'.Parted ∧ l'.Parts := by
  cases hstep with
  | serve ambient hinput => exact hparted.serve hparts hinput
  | @resume t r pending deeds ambient b =>
      exact hparted.resume hparts (haccounted.source_ne_none List.mem_cons_self) b

/-- A receiver that has been sent its last signal has been let go. -/
theorem Lived.detached_of_terminal {manners : Manners σ α ε}
    (h : Lived Ls self conditional manners l) {s : Signal α (TapError ε)} (hs : s ∈ sent l.deeds)
    (hterminal : s.isTerminal = true) : l.tap.attached = false := by
  have horderly : l.Orderly := h.invariant (fun _ => .of_newborn) fun _ _ => .step
  have hpositive : 0 < (sent l.deeds).countP Signal.isTerminal :=
    List.countP_pos_iff.mpr ⟨s, hs, hterminal⟩
  have hendings := horderly.endings
  cases hattached : l.tap.attached with
  | false => rfl
  | true =>
      rw [hattached, Bool.toNat_true] at hendings
      omega

theorem Lived.accounted (h : Lived Ls self conditional (Courteous 0) l) : l.Accounted :=
  h.invariant (fun _ => Accounted.of_newborn) fun _ _ => Accounted.step

/-- Next to the source a receiver is let go only with its last signal, or because it has
cancelled. -/
theorem Lived.parted (h : Lived Ls self conditional (Courteous 0) l) : l.Parted ∧ l.Parts := by
  have hboth := h.invariant (motive := fun l => l.Accounted ∧ l.Parted ∧ l.Parts)
    (fun _ hborn => ⟨.of_newborn hborn, hborn.parted⟩)
    fun _ _ hnow hstep => ⟨hnow.1.step hstep, hnow.2.1.step hnow.1 hnow.2.2 hstep⟩
  exact hboth.2

/-! ## After the parting -/

/-- The receiver has been let go, and no excuse is owed to it. -/
structure Mute (l : Life σ α ε) : Prop where
  detached : l.tap.attached = false
  excused : ∀ r ∈ l.pending, r.isExcuse = false

end Life

/-- A turn that says nothing to a receiver that has been let go. -/
structure Turn.Mute (turn : Turn σ α ε) : Prop where
  detached : turn.tap.attached = false
  silent : sent turn.next.deeds = []
  excused : ∀ r ∈ turn.next.resume?, r.isExcuse = false

namespace Turn

variable {turn : Turn σ α ε}

theorem Candid.mute (h : turn.Candid false) : turn.Mute where
  detached := h.detached rfl
  silent := h.silent rfl
  excused := by
    intro r hr
    by_contra hexcuse
    rw [Bool.not_eq_false] at hexcuse
    have hmem := h.excuse r hr hexcuse
    rw [h.silent rfl] at hmem
    cases hmem

theorem Parting.mute {c : Control} {doings : List (Doing α ε)}
    (h : turn.Parting c false doings) : turn.Mute := by
  cases h with
  | waits hnext hsource hattached hawaits =>
      refine ⟨hattached, by rw [hnext]; rfl, fun r hr => ?_⟩
      obtain rfl : _ = r := by simpa [hnext, Next.resume?] using hr
      exact hawaits.isExcuse
  | tells hnext hdetached hattached => cases hattached
  | ends hnext hdetached => exact ⟨hdetached, by rw [hnext]; rfl, by simp [hnext, Next.resume?]⟩

end Turn

variable {L}

/-- A tap next to the source is called when its receiver has been let go. -/
theorem serve_mute (self : Handle) (conditional : Bool) {pending : List (Resume α ε)}
    {deeds : List (Deed α ε)} {input : Input α ε}
    (hinput : Courteous 0 ⟨t, pending, deeds⟩ input) (hdetached : t.attached = false) :
    (t.serve L self conditional input).Mute := by
  cases input with
  | signal s => exact Turn.Candid.mute (hdetached ▸ receive_candid L self conditional s)
  | control c =>
      obtain ⟨handle, hsource⟩ := Life.source_of_courteous hinput
      cases c with
      | cancel => exact Turn.Parting.mute (hdetached ▸ onCancel_parting L hsource)
      | request n =>
          rcases onRequest_cases (t := t) L hsource n with ⟨hturn, -⟩ | ⟨listener, hturn⟩ |
            ⟨cause, -, hturn⟩
          · rw [serve, obey, hturn]
            exact Turn.Candid.mute (hdetached ▸ dropError_candid _)
          · rw [serve, obey, hturn]
            exact ⟨hdetached, rfl, by simp [Next.resume?, Resume.isExcuse]⟩
          · exact Turn.Parting.mute (hdetached ▸ hturn)

/-- A tap goes on when its receiver has been let go. -/
theorem resume_mute {r : Resume α ε} (b : Bool) (hr : r.isExcuse = false)
    (hsource : t.source ≠ none)
    (hdetached : t.attached = false) : (t.resume L r b).Mute := by
  by_cases hreleased : r = .released
  · obtain ⟨handle, hhandle⟩ := Option.ne_none_iff_exists'.mp hsource
    subst hreleased
    exact Turn.Parting.mute (hdetached ▸ resume_parting L hhandle b .released)
  · exact Turn.Candid.mute (hdetached ▸ resume_candid L b hr hreleased)

namespace Life

variable {turn : Turn σ α ε} {pending : List (Resume α ε)} {deeds : List (Deed α ε)}
  {l l' : Life σ α ε} {self : Handle} {conditional : Bool}

theorem Mute.take (h : Mute ⟨t, pending, deeds⟩) (hturn : turn.Mute) :
    (Life.take ⟨t, pending, deeds⟩ turn).Mute where
  detached := hturn.detached
  excused r hr := by
    rcases List.mem_append.mp hr with hr | hr
    · exact hturn.excused r (Option.mem_toList.mp hr)
    · exact h.excused r hr

theorem Mute.step (haccounted : l.Accounted) (h : l.Mute)
    (hstep : Step Ls self conditional (Courteous 0) l l') :
    l'.Mute ∧ sent l'.deeds = sent l.deeds := by
  cases hstep with
  | @serve t pending deeds input ambient hinput =>
      have hturn := serve_mute (L := Ls ambient) self conditional hinput h.detached
      have hreceived : Mute ⟨t, pending, deeds ++ [.received input]⟩ := ⟨h.detached, h.excused⟩
      refine ⟨hreceived.take hturn, ?_⟩
      simp [Life.take, hturn.silent, Deed.sent?]
  | @resume t r pending deeds ambient b =>
      have hturn := resume_mute (L := Ls ambient) b (h.excused r List.mem_cons_self)
        (haccounted.source_ne_none List.mem_cons_self) h.detached
      refine ⟨Mute.take ⟨h.detached, fun r hr => h.excused r (List.mem_cons_of_mem _ hr)⟩ hturn, ?_⟩
      simp [Life.take, hturn.silent]

/-- Next to the source a receiver that has been let go gets nothing any more. -/
theorem Mute.steps (haccounted : l.Accounted) (h : l.Mute)
    (hsteps : Relation.ReflTransGen (Step Ls self conditional (Courteous 0)) l l') :
    l'.Mute ∧ sent l'.deeds = sent l.deeds := by
  have hall : l'.Accounted ∧ l'.Mute ∧ sent l'.deeds = sent l.deeds := by
    induction hsteps with
    | refl => exact ⟨haccounted, h, rfl⟩
    | tail _ hstep ih =>
        obtain ⟨hnow, hmute, hsent⟩ := ih
        obtain ⟨hnext, hsame⟩ := hmute.step hnow hstep
        exact ⟨hnow.step hstep, hnext, hsame.trans hsent⟩
  exact hall.2

end Life

end Tap

end Wiretap

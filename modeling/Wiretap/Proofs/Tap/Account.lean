import Wiretap.Proofs.Tap.Turn

/-!
# The account of a tap's faults

The neighbours of a tap keep some order among themselves. Nothing comes before the handle, and a
tap that waits for the cancellation of a handle hears nothing meanwhile, except that the tap before
it may send the error that its own cancellation brought about.

Next to the source no such error can come. There every fault that arises is reported and then
leaves the tap, exactly once each; the ledger of what has been seen of the tap is at any time made
up of the faults that the calls still under way are about.
-/

namespace Wiretap.Tap

variable {K : Kinds} {σ α ε : Type}

/-- The order that the neighbours keep towards the tap at a place. -/
structure Courteous (place : Nat) (l : Life σ α ε) (input : Input α ε) : Prop where
  /-- While the tap waits for a cancellation only errors come, and only from another tap. -/
  waiting : ∀ r ∈ l.pending.head?, r.waits = true → 0 < place ∧ input.isError = true
  /-- The handle comes first, unless the tap before has nothing but an error to send. -/
  opening : l.tap.source = none →
    heard l.deeds = [] ∧ (input.isSubscribe = true ∨ 0 < place ∧ input.isError = true)

namespace Life

/-- The faults that have not been reported when the calls under way began. -/
def unreported (pending : List (Resume α ε)) : List Fault := pending.filterMap Resume.unreported?

/-- The faults that were reported, and were still to leave, when the calls under way began. -/
def unsettled (pending : List (Resume α ε)) : List Fault := pending.filterMap Resume.unsettled?

theorem unreported_cons (r : Resume α ε) (pending : List (Resume α ε)) :
    unreported (r :: pending) = r.unreported?.toList ++ unreported pending :=
  filterMap_cons_toList _ _ _

theorem unsettled_cons (r : Resume α ε) (pending : List (Resume α ε)) :
    unsettled (r :: pending) = r.unsettled?.toList ++ unsettled pending :=
  filterMap_cons_toList _ _ _

/-- The ledger matches the calls under way, and a refused handle finds the receiver attached. -/
structure Accounted (l : Life σ α ε) : Prop where
  ledger : Ledger.empty.run l.deeds = some ⟨unreported l.pending, unsettled l.pending⟩
  /-- Nothing happens before the handle arrives. -/
  opening : l.tap.source = none → l.tap.attached = true ∧ l.pending = []
  /-- The receiver stays while the handle is refused. -/
  refusing : ∀ f ∈ l.pending.head?, f.isRefusal = true → l.tap.attached = true
  /-- A tap that refuses a handle makes no other call. -/
  buried : ∀ r ∈ l.pending.tail, r.isRefusal = false

namespace Accounted

variable {t : Tap σ} {pending : List (Resume α ε)} {deeds : List (Deed α ε)}
  {turn : Turn σ α ε}

/-- A tap that waits for a call has got its handle. -/
theorem source_ne_none {l : Life σ α ε} (h : l.Accounted) {r : Resume α ε} (hr : r ∈ l.pending) :
    l.tap.source ≠ none := by
  intro hnone
  rw [(h.opening hnone).2] at hr
  cases hr

theorem of_newborn {l : Life σ α ε} (h : l.Newborn) : l.Accounted := by
  obtain ⟨⟨listener, context, htap⟩, hpending, hdeeds⟩ := h
  constructor
  · rcases hdeeds with hdeeds | hdeeds <;> rw [hdeeds, hpending] <;> rfl
  · simp [htap, hpending, start]
  · simp [hpending]
  · simp [hpending]

theorem received (h : Accounted ⟨t, pending, deeds⟩) (input : Input α ε) :
    Ledger.empty.run (deeds ++ [.received input]) =
      some ⟨unreported pending, unsettled pending⟩ := by
  rw [Ledger.run_append, h.ledger]
  rfl

/-- A plain turn that settles what it is charged with. -/
theorem take_plain {charged : List Fault}
    (hledger : Ledger.empty.run deeds = some ⟨charged ++ unreported pending, unsettled pending⟩)
    (hsource : t.source ≠ none) (hburied : ∀ r ∈ pending, r.isRefusal = false)
    (hturn : turn.Plain t charged []) : Accounted (take ⟨t, pending, deeds⟩ turn) := by
  have hresume := hturn.resume
  constructor
  · change Ledger.empty.run (deeds ++ turn.deeds) = _
    have hbalance := hturn.balance ⟨unreported pending, unsettled pending⟩
    rw [Ledger.run_append, hledger, Option.bind_some]
    rw [List.nil_append] at hbalance
    rw [hbalance]
    cases hnext : turn.next.resume? with
    | none => simp [take, hnext, Next.unreported]
    | some r =>
        simp [take, hnext, Next.unreported, unreported_cons, unsettled_cons,
          Resume.unsettled?_of_isExcuse (hresume r hnext).2]
  · intro hnone
    exact absurd (hturn.source ▸ hnone) hsource
  · intro r hr hrefusal
    cases hnext : turn.next.resume? with
    | none =>
        rw [take, hnext] at hr
        rw [hburied r (List.mem_of_mem_head? hr)] at hrefusal
        cases hrefusal
    | some r' =>
        obtain rfl : r' = r := by simpa [take, hnext] using hr
        rw [(hresume r' hnext).1] at hrefusal
        cases hrefusal
  · intro r hr
    refine hburied r ?_
    cases hnext : turn.next.resume? with
    | none => exact List.mem_of_mem_tail (by simpa [take, hnext] using hr)
    | some r' => simpa [take, hnext] using hr

variable {L : Listener σ α ε} {Ls : Context → Listener σ α ε}

/-- The first handle arrives. Nothing has happened before, so the receiver is attached. -/
theorem take_first (self handle : Handle) (h : Accounted ⟨t, pending, deeds⟩)
    (hsource : t.source = none) :
    Accounted (take ⟨t, pending, deeds ++ [.received (.signal (.subscribe handle))]⟩
      (t.onSubscribe L self handle)) := by
  have hledger := h.received (.signal (.subscribe handle))
  obtain ⟨hattached, hpending⟩ := h.opening hsource
  dsimp only at hattached hpending
  subst hpending
  unfold onSubscribe
  rw [hsource]
  unfold runHook
  rcases L.run t.listener .subscription with ⟨listener, _ | cause⟩
  · constructor
    · simp only [take, hattached, down, Turn.deeds_after, ↓reduceIte]
      rw [Ledger.run_append, hledger]
      rfl
    · simp [take, hattached, down]
    · simp [take, hattached, down, Next.resume?, Resume.isRefusal]
    · simp [take, hattached, down, Next.resume?]
  · constructor
    · simp only [take, Turn.deeds_after]
      rw [Ledger.run_append, hledger]
      rfl
    · simp [take]
    · simp [take, hattached]
    · simp [take, Next.resume?]

/-- A further handle arrives, while the tap does not refuse one. -/
theorem take_further (self handle : Handle) {first : Handle} (h : Accounted ⟨t, pending, deeds⟩)
    (hsource : t.source = some first) (hhead : ∀ r ∈ pending.head?, r.isRefusal = false) :
    Accounted (take ⟨t, pending, deeds ++ [.received (.signal (.subscribe handle))]⟩
      (t.onSubscribe L self handle)) := by
  have hledger := h.received (.signal (.subscribe handle))
  unfold onSubscribe
  rw [hsource]
  constructor
  · simp only [take]
    rw [Ledger.run_append, hledger]
    rfl
  · simp [take, hsource]
  · simp [take, Next.resume?, Resume.isRefusal]
  · intro r hr
    cases hpending : pending with
    | nil => simp [take, Next.resume?, hpending] at hr
    | cons r' rest =>
        have hburied := h.buried
        simp only [take, Next.resume?, hpending, Option.toList_some, List.cons_append,
          List.nil_append, List.tail_cons, List.mem_cons] at hr hburied
        rcases hr with rfl | hr
        · exact hhead r (by simp [hpending])
        · exact hburied r hr

/-- The refused handle has been cancelled, and the receiver is still there. -/
theorem take_refused {f : Fault} (h : Accounted ⟨t, .refused f :: pending, deeds⟩) :
    Accounted (take ⟨t, pending, deeds⟩ (t.refused L f)) := by
  have hledger := h.ledger
  have hattached := h.refusing (.refused f) rfl rfl
  have hburied := h.buried
  dsimp only at hledger hattached
  rw [unreported_cons, unsettled_cons] at hledger
  unfold refused report
  constructor
  · simp only [take, hattached, down, Turn.deeds_after, ↓reduceIte]
    rw [Ledger.run_append, hledger]
    simp [Turn.deeds, Next.deeds, Next.resume?, Ledger.post, Ledger.report, Resume.unreported?,
      Resume.unsettled?, unreported_cons, unsettled_cons, Signal.fault?]
  · intro hnone
    have hopening := h.opening
    simp_all [take, down]
  · simp [take, hattached, down, Next.resume?, Resume.isRefusal]
  · simpa [take, hattached, down, Next.resume?] using hburied

theorem take_excused {f : Fault} (h : Accounted ⟨t, .excused f :: pending, deeds⟩) :
    Accounted (take ⟨t, pending, deeds⟩
      (t.down (.error (.listener f)) .leave : Turn σ α ε)) := by
  have hledger := h.ledger
  have hburied := h.buried
  dsimp only at hledger
  rw [unreported_cons, unsettled_cons] at hledger
  constructor
  · simp only [take, down]
    rw [Ledger.run_append, hledger]
    simp [Turn.deeds, Next.deeds, Next.resume?, Ledger.post, Ledger.settle, Resume.unreported?,
      Resume.unsettled?, unreported_cons, unsettled_cons, Signal.fault?, TapError.fault?]
  · intro hnone
    simpa using (h.opening hnone).2
  · simp [take, down, Next.resume?, Resume.isRefusal]
  · simpa [take, down, Next.resume?] using hburied

variable {l l' : Life σ α ε} {self : Handle} {conditional : Bool}

/-- While a tap next to the source is called it waits for no cancellation. -/
theorem head_of_courteous {input : Input α ε} (hinput : Courteous 0 ⟨t, pending, deeds⟩ input) :
    ∀ r ∈ pending.head?, r.isRefusal = false := by
  intro r hr
  cases hwaits : r.waits with
  | true => exact absurd (hinput.waiting r hr hwaits).1 (Nat.lt_irrefl 0)
  | false => exact Resume.isRefusal_of_waits hwaits

theorem step (h : l.Accounted) (hstep : Step Ls self conditional (Courteous 0) l l') :
    l'.Accounted := by
  cases hstep with
  | @serve t pending deeds input ambient hinput =>
      have hhead := head_of_courteous hinput
      cases hsource : t.source with
      | none =>
          rcases (hinput.opening hsource).2 with hsubscribe | ⟨hplace, -⟩
          · rcases input with (handle | x | x | e | _) | c
            · exact h.take_first self handle hsource
            all_goals cases hsubscribe
          · cases hplace
      | some first =>
          by_cases hsubscribe : ∃ handle, input = .signal (.subscribe handle)
          · obtain ⟨handle, rfl⟩ := hsubscribe
            exact h.take_further self handle hsource hhead
          · -- The tap is not refusing a handle, or nobody would call it.
            have hburied : ∀ r ∈ pending, r.isRefusal = false := by
              intro r hr
              cases hpending : pending with
              | nil => simp [hpending] at hr
              | cons r' rest =>
                  have htail := h.buried
                  simp only [hpending, List.mem_cons, List.tail_cons] at hr htail
                  rcases hr with rfl | hr
                  · exact hhead r (by simp [hpending])
                  · exact htail r hr
            have hplain := serve_plain (t := t) (Ls ambient) self conditional
              fun handle heq => hsubscribe ⟨handle, heq⟩
            exact take_plain (h.received input) (by simp [hsource]) hburied hplain
  | @resume t r pending deeds ambient b =>
      have hsource : t.source ≠ none := h.source_ne_none List.mem_cons_self
      cases r with
      | refused f => exact h.take_refused
      | excused f => exact h.take_excused
      | _ =>
          have hledger := h.ledger
          dsimp only at hledger
          rw [unreported_cons, unsettled_cons] at hledger
          exact take_plain hledger hsource h.buried (resume_plain (Ls ambient) b rfl rfl)

end Accounted

/-- Next to the source, what has been seen of a tap goes through the ledger, and only the calls
that are under way leave anything open. -/
theorem Lived.ledger {Ls : Context → Listener σ α ε} {self : Handle} {conditional : Bool}
    {l : Life σ α ε} (h : Lived Ls self conditional (Courteous 0) l) :
    Ledger.empty.run l.deeds = some ⟨unreported l.pending, unsettled l.pending⟩ :=
  (h.invariant (fun _ => Accounted.of_newborn) fun _ _ => Accounted.step).ledger

theorem uncreated_turn_deeds (turn : Turn σ α ε) : uncreated turn.deeds = [] := by
  rw [uncreated, List.filterMap_eq_nil_iff]
  intro d hd
  rcases List.mem_append.mp hd with hd | hd
  · obtain ⟨act, -, rfl⟩ := List.mem_map.mp hd
    rfl
  · cases hnext : turn.next <;> simp [hnext, Next.deeds] at hd <;> simp [hd]

/-- A tap that lives has a listener. -/
theorem Lived.uncreated {Ls : Context → Listener σ α ε} {self : Handle} {conditional : Bool}
    {manners : Manners σ α ε} {l : Life σ α ε} (h : Lived Ls self conditional manners l) :
    uncreated l.deeds = [] := by
  refine h.invariant (motive := fun l => Tap.uncreated l.deeds = []) ?_ ?_
  · rintro first ⟨-, -, hdeeds | hdeeds⟩ <;> rw [hdeeds] <;> rfl
  · intro now next hnow hstep
    have happend : ∀ first second : List (Deed α ε),
        Tap.uncreated (first ++ second) = Tap.uncreated first ++ Tap.uncreated second :=
      fun _ _ => List.filterMap_append
    cases hstep with
    | @serve t pending deeds input ambient hinput =>
        dsimp only at hnow
        rw [take, happend, happend, hnow, uncreated_turn_deeds]
        rfl
    | @resume t r pending deeds ambient b =>
        dsimp only at hnow
        rw [take, happend, hnow, uncreated_turn_deeds]
        rfl

end Life

end Wiretap.Tap

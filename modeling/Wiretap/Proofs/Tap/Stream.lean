import Wiretap.Proofs.Tap.Turn

/-!
# The stream behind a tap

Whatever the neighbours of a tap do and whichever hooks fail, the receiver gets a stream that obeys
the protocol. The invariant links the state of the tap to what has been sent: a handle is sent or
still owed only once the source has given one, and of a last signal sent, a last signal owed, and
an attached receiver, there is at most one.
-/

namespace Wiretap

variable {K : Kinds} {σ α ε : Type}

/-- What a receiver may rely on. -/
structure Signal.Lawful (signals : List (Signal α ε)) : Prop where
  /-- There is at most one handle. -/
  handle : signals.countP Signal.isSubscribe ≤ 1
  /-- There is at most one ending. -/
  ending : signals.countP Signal.isTerminal ≤ 1
  /-- Nothing comes after an ending. -/
  last : ∀ s ∈ signals.dropLast, s.isTerminal = false

/-- An ending that comes first comes alone. -/
theorem Signal.Lawful.alone {s : Signal α ε} {rest : List (Signal α ε)}
    (h : Signal.Lawful (s :: rest)) (hs : s.isTerminal = true) : rest = [] := by
  cases rest with
  | nil => rfl
  | cons s' rest =>
      have hopen := h.last s (by simp)
      rw [hs] at hopen
      cases hopen

theorem Signal.Lawful.of_isPrefix {first all : List (Signal α ε)} (hall : Signal.Lawful all)
    (hfirst : first <+: all) : Signal.Lawful first where
  handle := Nat.le_trans hfirst.sublist.countP_le hall.handle
  ending := Nat.le_trans hfirst.sublist.countP_le hall.ending
  last := by
    intro s hs
    obtain ⟨rest, rfl⟩ := hfirst
    refine hall.last s ?_
    rw [List.dropLast_append]
    split
    · exact hs
    · exact List.mem_append_left _ (List.dropLast_subset first hs)

namespace Tap

namespace Life

/-- The signals sent obey the protocol, and the state of the tap fits them. -/
structure Orderly (l : Life σ α ε) : Prop where
  /-- Handles are sent or owed only once there is a source. -/
  handles : (sent l.deeds).countP Signal.isSubscribe + l.pending.countP Resume.isRefusal ≤
    l.tap.source.toList.length
  /-- The receiver is detached before it gets its last signal. -/
  endings : (sent l.deeds).countP Signal.isTerminal + l.pending.countP Resume.isExcuse +
    l.tap.attached.toNat ≤ 1
  /-- Nothing comes after an ending. -/
  last : ∀ s ∈ (sent l.deeds).dropLast, s.isTerminal = false

namespace Orderly

variable {t : Tap σ} {pending : List (Resume α ε)} {deeds : List (Deed α ε)}
  {turn : Turn σ α ε}

theorem lawful {l : Life σ α ε} (h : l.Orderly) : Signal.Lawful (sent l.deeds) where
  handle := by
    have hhandles := h.handles
    have hsource : l.tap.source.toList.length ≤ 1 := by cases l.tap.source <;> simp
    omega
  ending := by
    have hendings := h.endings
    omega
  last := h.last

theorem of_newborn {l : Life σ α ε} (h : l.Newborn) : l.Orderly := by
  obtain ⟨⟨listener, context, htap⟩, hpending, hdeeds⟩ := h
  have hsent : sent l.deeds = [] := by
    rcases hdeeds with hdeeds | hdeeds <;> simp [hdeeds, Deed.sent?]
  constructor <;> simp [hsent, hpending, htap, start]

theorem received (h : Orderly ⟨t, pending, deeds⟩) (input : Input α ε) :
    Orderly ⟨t, pending, deeds ++ [.received input]⟩ := by
  constructor
  · simpa [Deed.sent?] using h.handles
  · simpa [Deed.sent?] using h.endings
  · simpa [Deed.sent?] using h.last

/-- If a signal can still be sent, no ending has been. -/
theorem sent_open (h : Orderly ⟨t, pending, deeds⟩)
    (hopen : 0 < pending.countP Resume.isExcuse + t.attached.toNat) :
    ∀ s ∈ sent deeds, s.isTerminal = false := by
  have hendings := h.endings
  dsimp only at hendings
  have hnone : (sent deeds).countP Signal.isTerminal = 0 := by omega
  intro s hs
  simpa using List.countP_eq_zero.mp hnone s hs

/-- What still waits when a neighbour has returned. -/
theorem tail {r : Resume α ε} (h : Orderly ⟨t, r :: pending, deeds⟩) :
    Orderly ⟨t, pending, deeds⟩ where
  handles := by
    have hhandles := h.handles
    simp only [List.countP_cons] at hhandles ⊢
    omega
  endings := by
    have hendings := h.endings
    simp only [List.countP_cons] at hendings ⊢
    omega
  last := h.last

theorem take_plain {unreported unsettled : List Fault} (h : Orderly ⟨t, pending, deeds⟩)
    (hturn : turn.Plain t unreported unsettled) : Orderly (take ⟨t, pending, deeds⟩ turn) := by
  have hhandles := h.handles
  have hendings := h.endings
  have hattached : turn.tap.attached.toNat ≤ t.attached.toNat := by
    cases hnow : turn.tap.attached with
    | true => simp [hturn.attached hnow]
    | false => simp
  dsimp only at hhandles hendings
  cases hnext : turn.next with
  | answer b =>
      constructor
      · simp [take, hnext, Next.resume?, Next.deeds, Deed.sent?, hturn.source]
        omega
      · simp [take, hnext, Next.resume?, Next.deeds, Deed.sent?]
        omega
      · simpa [take, hnext, Next.deeds, Deed.sent?] using h.last
  | up handle c r =>
      obtain ⟨-, -, hrefusal, hexcuse⟩ := hturn.up handle c r hnext
      constructor
      · simp [take, hnext, Next.resume?, Next.deeds, hturn.source, hrefusal]
        omega
      · simp [take, hnext, Next.resume?, Next.deeds, hexcuse]
        omega
      · simpa [take, hnext, Next.deeds] using h.last
  | down s r =>
      obtain ⟨hopen, hsubscribe, hterminal, hwaits, hexcuse⟩ := hturn.down s r hnext
      have hrefusal := Resume.isRefusal_of_waits hwaits
      -- If the signal is the last one, it takes the share of the receiver.
      have hcount : [s].countP Signal.isTerminal + turn.tap.attached.toNat ≤ 1 := by
        cases hs : s.isTerminal with
        | true => simp [hs, hterminal hs]
        | false => cases turn.tap.attached <;> simp [hs]
      constructor
      · simp [take, hnext, Next.resume?, Next.deeds, Deed.sent?, hturn.source, hrefusal,
          hsubscribe]
        omega
      · have howed : [r].countP Resume.isExcuse = 0 := by simp [hexcuse]
        simp only [hopen, Bool.toNat_true] at hendings
        simp only [take, hnext, Next.resume?, sent_append, sent_turn_deeds, Next.deeds, sent_cons,
          sent_nil, Deed.sent?, Option.toList_some, List.countP_append, List.append_nil, howed]
        omega
      · have hbefore := h.sent_open (by simp [hopen])
        simpa [take, hnext, Next.deeds, Deed.sent?] using hbefore

variable {L : Listener σ α ε} {Ls : Context → Listener σ α ε}

theorem take_onSubscribe (self handle : Handle) (h : Orderly ⟨t, pending, deeds⟩) :
    Orderly (take ⟨t, pending, deeds⟩ (t.onSubscribe L self handle)) := by
  have hhandles := h.handles
  have hendings := h.endings
  have hlast := h.last
  unfold onSubscribe
  cases hsource : t.source with
  | some other =>
      constructor
      · simpa [take, Next.resume?, Next.deeds, Resume.isRefusal, hsource] using hhandles
      · simpa [take, Next.resume?, Next.deeds, Resume.isExcuse] using hendings
      · simpa [take, Next.deeds] using hlast
  | none =>
      simp only [hsource, Option.toList_none, List.length_nil, Nat.le_zero,
        Nat.add_eq_zero_iff] at hhandles
      -- No handle has been sent or is owed, so there is room for one.
      unfold runHook
      rcases L.run t.listener .subscription with ⟨listener, _ | cause⟩
      · cases hattached : t.attached with
        | true =>
            have hbefore := h.sent_open (by simp [hattached])
            constructor
            · simp [take, down, Next.resume?, Next.deeds, Deed.sent?, hhandles,
                Signal.isSubscribe, Resume.isRefusal]
            · simpa [take, hattached, down, Next.resume?, Next.deeds, Deed.sent?,
                Signal.isTerminal, Resume.isExcuse] using hendings
            · simpa [take, hattached, down, Next.deeds, Deed.sent?] using hbefore
        | false =>
            constructor
            · simp [take, finish, reply, Next.resume?, Next.deeds, Deed.sent?, hhandles]
            · simpa [take, hattached, finish, reply, Next.resume?, Next.deeds, Deed.sent?]
                using hendings
            · simpa [take, hattached, finish, reply, Next.deeds, Deed.sent?] using hlast
      · constructor
        · simp [take, Next.resume?, Next.deeds, Deed.sent?, hhandles, List.countP_cons,
            Resume.isRefusal]
        · simpa [take, Next.resume?, Next.deeds, Deed.sent?, Resume.isExcuse] using hendings
        · simpa [take, Next.deeds, Deed.sent?] using hlast

/-- The handle that was refused has been cancelled: the refusal pays for the empty handle. -/
theorem take_refused {f : Fault} (h : Orderly ⟨t, .refused f :: pending, deeds⟩) :
    Orderly (take ⟨t, pending, deeds⟩ (t.refused L f)) := by
  have hhandles := h.handles
  have hendings := h.endings
  simp only [List.countP_cons, Resume.isRefusal, Resume.isExcuse, if_true, Bool.false_eq_true,
    if_false, Nat.add_zero] at hhandles hendings
  unfold refused report
  cases hattached : t.attached with
  | true =>
      have hbefore := h.sent_open (by simp [hattached])
      simp only [hattached, Bool.toNat_true] at hendings
      constructor
      · simp [take, down, Next.resume?, Next.deeds, Deed.sent?, Signal.isSubscribe,
          Resume.isRefusal]
        omega
      · simp [take, down, Next.resume?, Next.deeds, Deed.sent?, Signal.isTerminal,
          List.countP_cons, Resume.isExcuse]
        omega
      · simpa [take, down, Next.deeds, Deed.sent?] using hbefore
  | false =>
      constructor
      · simp [take, finish, reply, Next.resume?, Next.deeds, Deed.sent?]
        omega
      · simp [take, finish, reply, Next.resume?, Next.deeds, Deed.sent?]
        omega
      · simpa [take, finish, reply, Next.deeds, Deed.sent?] using h.last

theorem take_excused {f : Fault} (h : Orderly ⟨t, .excused f :: pending, deeds⟩) :
    Orderly (take ⟨t, pending, deeds⟩
      (t.down (.error (.listener f)) .leave : Turn σ α ε)) := by
  have hhandles := h.handles
  have hendings := h.endings
  have hbefore := h.sent_open (by
    simp only [List.countP_cons, Resume.isExcuse, if_true]
    omega)
  simp only [List.countP_cons, Resume.isRefusal, Resume.isExcuse, if_true, Bool.false_eq_true,
    if_false, Nat.add_zero] at hhandles hendings
  constructor
  · simpa [take, down, Next.resume?, Next.deeds, Deed.sent?, Signal.isSubscribe,
      Resume.isRefusal] using hhandles
  · simp [take, down, Next.resume?, Next.deeds, Deed.sent?, Signal.isTerminal, List.countP_cons,
      Resume.isExcuse]
    omega
  · simpa [take, down, Next.deeds, Deed.sent?] using hbefore

variable {l l' : Life σ α ε} {self : Handle} {conditional : Bool} {manners : Manners σ α ε}

theorem step (h : l.Orderly) (hstep : Step Ls self conditional manners l l') : l'.Orderly := by
  cases hstep with
  | @serve t pending deeds input ambient hmanners =>
      have hreceived := h.received input
      cases input with
      | control c =>
          exact hreceived.take_plain (serve_plain (Ls ambient) self conditional (by simp))
      | signal s =>
          cases s with
          | subscribe handle => exact hreceived.take_onSubscribe self handle
          | _ => exact hreceived.take_plain (serve_plain (Ls ambient) self conditional (by simp))
  | @resume t r pending deeds ambient b =>
      cases r with
      | refused f => exact h.take_refused
      | excused f => exact h.take_excused
      | _ => exact h.tail.take_plain (resume_plain (Ls ambient) b rfl rfl)

end Orderly

/-- Behind a tap, whatever its listener and its neighbours do, the stream obeys the protocol. -/
theorem Lived.lawful {Ls : Context → Listener σ α ε} {self : Handle} {conditional : Bool}
    {manners : Manners σ α ε} {l : Life σ α ε} (h : Lived Ls self conditional manners l) :
    Signal.Lawful (sent l.deeds) :=
  (h.invariant (fun _ => Orderly.of_newborn) fun _ _ => Orderly.step).lawful

end Life

end Tap

end Wiretap

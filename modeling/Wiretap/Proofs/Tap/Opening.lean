import Wiretap.Proofs.Tap.Account

/-!
# How the stream behind a tap begins

When the hook for the handle fails, the tap cancels the source before it lets its receiver have an
empty handle and then the fault. If the source answers the cancellation with an error, that error
overtakes the empty handle, and the receiver's stream begins with an error. Otherwise the stream
behind a tap begins as the one before it does.
-/

namespace Wiretap

variable {K : Kinds} {σ α ε : Type}

namespace Signal

/-- Does the signal bring an error? -/
def isError : Signal α ε → Bool
  | .error _ => true
  | _ => false

/-- The first signal is of this kind. -/
def Opens (kind : Signal α ε → Bool) (signals : List (Signal α ε)) : Prop :=
  signals.head?.any kind = true

theorem Opens.append {kind : Signal α ε → Bool} {first : List (Signal α ε)}
    (h : Opens kind first) (rest : List (Signal α ε)) : Opens kind (first ++ rest) := by
  cases first with
  | nil => cases h
  | cons s first => exact h

theorem Opens.ne_nil {kind : Signal α ε → Bool} {signals : List (Signal α ε)}
    (h : Opens kind signals) : signals ≠ [] := by
  rintro rfl
  cases h

/-- What begins a stream begins every part that has been seen of it. -/
theorem Opens.of_isPrefix {kind : Signal α ε → Bool} {first all : List (Signal α ε)}
    (h : Opens kind all) (hfirst : first <+: all) : first = [] ∨ Opens kind first := by
  cases first with
  | nil => exact .inl rfl
  | cons s first =>
      obtain ⟨rest, rfl⟩ := hfirst
      exact .inr h

theorem Opens.mapError {ε' : Type} {f : ε → ε'} {kind : Signal α ε → Bool}
    {kind' : Signal α ε' → Bool} {signals : List (Signal α ε)}
    (hkind : ∀ s, kind' (s.mapError f) = kind s) :
    Opens kind' (signals.map (·.mapError f)) ↔ Opens kind signals := by
  cases signals with
  | nil => exact Iff.rfl
  | cons s signals => simp [Opens, hkind]

theorem isError_mapError {ε' : Type} (f : ε → ε') (s : Signal α ε) :
    (s.mapError f).isError = s.isError := by cases s <;> rfl

/-- A stream does not begin in two ways. -/
theorem Opens.not_isError {signals : List (Signal α ε)} (h : Opens isSubscribe signals) :
    ¬Opens isError signals := by
  intro herror
  cases signals with
  | nil => cases h
  | cons s signals =>
      cases s with
      | subscribe handle => cases herror
      | _ => cases h

end Signal

namespace Tap

/-- An error that comes to an attached receiver before the end goes on at once, or the hook for it
failed and the source is cancelled first. -/
theorem onError_open (L : Listener σ α ε) {t : Tap σ} (e : ε) (hdone : t.done = false)
    (hattached : t.attached = true) :
    (∃ e' r, e'.source? = some e ∧ (t.onError L e).next = .down (.error e') r) ∨
      ∃ f h, t.source = some h ∧ (t.onError L e).next = .up h .cancel (.spoiled f e) ∧
        (t.onError L e).tap.attached = true ∧ (t.onError L e).tap.done = true := by
  unfold onError runHook
  rw [if_neg (by simp [hdone])]
  rcases L.run t.listener (.error e) with ⟨listener, _ | cause⟩
  · exact .inl ⟨.source e, .passedError e, rfl, by simp [hattached, down]⟩
  · unfold cancelSource
    cases hsource : t.source with
    | none =>
        exact .inl ⟨.multiple ((Hook.error e : Hook α ε).fault cause) e, .leave, rfl,
          by simp [spoiled, report, terminate, hattached, down]⟩
    | some h => exact .inr ⟨(Hook.error e : Hook α ε).fault cause, h, rfl, by simp [hattached]⟩

/-- An error after the end changes nothing but the listener, and nothing is sent. -/
theorem onError_closed (L : Listener σ α ε) {t : Tap σ} (e : ε) (hdone : t.done = true) :
    (t.onError L e).next = .answer true ∧
      ∃ listener, (t.onError L e).tap = { t with listener := listener } := by
  unfold onError runHook
  rw [if_pos hdone]
  rcases L.run t.listener (.malformedError e) with ⟨listener, _ | cause⟩
  · exact ⟨rfl, listener, rfl⟩
  · exact ⟨rfl, L.notice listener ((Hook.malformedError e).fault cause), rfl⟩

/-- How far the refusal of a handle has come. -/
inductive Refusal
  /-- No refusal is under way. -/
  | settled
  /-- The hook for the handle failed and the listener has not been told. -/
  | underway
  /-- An error came meanwhile. -/
  | overtaken
deriving DecidableEq

/-- How far the refusal of a handle is after one more deed. -/
def Refusal.after : Refusal → Deed α ε → Refusal
  | .settled, .acted (.ran .subscription (some _)) => .underway
  | .underway, .acted (.reported _) => .settled
  | .underway, .received (.signal (.error _)) => .overtaken
  | now, _ => now

/-- How far the refusal of a handle has come. -/
def refusal (deeds : List (Deed α ε)) : Refusal := deeds.foldl Refusal.after .settled

@[simp] theorem refusal_append (first second : List (Deed α ε)) :
    refusal (first ++ second) = second.foldl Refusal.after (refusal first) := List.foldl_append

/-- An error that has overtaken the refusal cannot be called back. -/
theorem foldl_after_overtaken (deeds : List (Deed α ε)) :
    deeds.foldl Refusal.after .overtaken = .overtaken := by
  induction deeds with
  | nil => rfl
  | cons d deeds ih => exact ih

/-- What a tap does itself does not overtake a refusal. -/
theorem foldl_after_turn (turn : Turn σ α ε) {now : Refusal} (hnow : now ≠ .overtaken) :
    turn.deeds.foldl Refusal.after now ≠ .overtaken := by
  have hdeeds : ∀ input, .received input ∉ turn.deeds := fun input => turn.received_not_mem input
  revert hdeeds
  generalize turn.deeds = deeds
  intro hdeeds
  induction deeds generalizing now with
  | nil => exact hnow
  | cons d deeds ih =>
      apply ih
      · unfold Refusal.after
        split
        · decide
        · decide
        · exact absurd List.mem_cons_self (hdeeds _)
        · exact hnow
      · exact fun input hmem => hdeeds input (List.mem_cons_of_mem d hmem)

/-- Only the hook for a handle begins a refusal. -/
theorem after_settled {d : Deed α ε} (h : ∀ cause, d ≠ .acted (.ran .subscription (some cause))) :
    Refusal.after .settled d = .settled := by
  unfold Refusal.after
  split
  · exact absurd rfl (h _)
  · contradiction
  · contradiction
  · rfl

theorem foldl_after_settled {deeds : List (Deed α ε)}
    (h : ∀ cause, .acted (.ran .subscription (some cause)) ∉ deeds) :
    deeds.foldl Refusal.after .settled = .settled := by
  induction deeds with
  | nil => rfl
  | cons d deeds ih =>
      have hd : Refusal.after .settled d = .settled :=
        after_settled fun cause heq => h cause (heq ▸ List.mem_cons_self)
      rw [List.foldl_cons, hd]
      exact ih fun cause hmem => h cause (List.mem_cons_of_mem d hmem)

theorem Turn.Settled.deeds {t : Tap σ} {turn : Turn σ α ε} (h : turn.Settled t) :
    ∀ cause, .acted (.ran .subscription (some cause)) ∉ turn.deeds := by
  intro cause hmem
  cases h.hooks _ (turn.acts_of_deeds hmem)

namespace Life

/-- What is known of the beginning of the stream behind a tap. -/
inductive Opening : Life σ α ε → Prop
  /-- Nothing has come. -/
  | fresh {t : Tap σ} {deeds : List (Deed α ε)} (hsource : t.source = none)
    (hattached : t.attached = true) (hdone : t.done = false) (hsent : sent deeds = [])
    (hheard : heard deeds = []) (hrefusal : refusal deeds = .settled) :
    Opening ⟨t, [], deeds⟩
  /-- The handle is being refused. -/
  | refusing {t : Tap σ} {deeds : List (Deed α ε)} (f : Fault) (hsource : t.source ≠ none)
    (hattached : t.attached = true) (hdone : t.done = false) (hsent : sent deeds = [])
    (hheard : Signal.Opens Signal.isSubscribe (heard deeds))
    (hrefusal : refusal deeds = .underway) :
    Opening ⟨t, [.refused f], deeds⟩
  /-- An error has overtaken the refusal, and the hook for it failed, too. -/
  | spoiling {t : Tap σ} {deeds : List (Deed α ε)} (f : Fault) (e : ε) (g : Fault)
    (hsource : t.source ≠ none) (hattached : t.attached = true) (hdone : t.done = true)
    (hsent : sent deeds = []) (hheard : Signal.Opens Signal.isSubscribe (heard deeds))
    (hrefusal : refusal deeds = .overtaken) :
    Opening ⟨t, [.spoiled f e, .refused g], deeds⟩
  /-- The stream has begun with a handle, as the one before the tap has. -/
  | begun {l : Life σ α ε} (hsource : l.tap.source ≠ none)
    (hsent : Signal.Opens Signal.isSubscribe (sent l.deeds))
    (hheard : Signal.Opens Signal.isSubscribe (heard l.deeds))
    (hrefusal : refusal l.deeds = .settled) :
    Opening l
  /-- The stream has begun with an error that overtook the refusal. -/
  | overtaken {l : Life σ α ε} (hsource : l.tap.source ≠ none)
    (hsent : Signal.Opens Signal.isError (sent l.deeds))
    (hheard : Signal.Opens Signal.isSubscribe (heard l.deeds))
    (hrefusal : refusal l.deeds = .overtaken) :
    Opening l
  /-- The stream has begun with an error, as the one before the tap has. -/
  | misbegun {l : Life σ α ε} (hsource : l.tap.source = none)
    (hsent : Signal.Opens Signal.isError (sent l.deeds))
    (hheard : Signal.Opens Signal.isError (heard l.deeds))
    (hrefusal : refusal l.deeds = .settled) :
    Opening l

namespace Opening

variable {L : Listener σ α ε} {Ls : Context → Listener σ α ε} {self : Handle} {conditional : Bool}
  {place : Nat} {t : Tap σ} {pending : List (Resume α ε)} {deeds : List (Deed α ε)}
  {turn : Turn σ α ε}

theorem of_newborn {l : Life σ α ε} (h : l.Newborn) : l.Opening := by
  obtain ⟨t, pending, deeds⟩ := l
  obtain ⟨⟨listener, context, htap⟩, hpending, hdeeds⟩ := h
  dsimp only at htap hpending hdeeds
  subst htap hpending
  rcases hdeeds with rfl | rfl <;> exact .fresh rfl rfl rfl rfl rfl rfl

/-- Once the stream has begun, a turn that leaves the handle alone changes nothing about it. -/
theorem take_settled (hsource : t.source ≠ none)
    (hsent : Signal.Opens Signal.isSubscribe (sent deeds) ∧ refusal deeds = .settled ∨
      Signal.Opens Signal.isError (sent deeds) ∧ refusal deeds = .overtaken)
    (hheard : Signal.Opens Signal.isSubscribe (heard deeds)) (hturn : turn.Settled t) :
    Opening (take ⟨t, pending, deeds⟩ turn) := by
  have hkept : turn.tap.source ≠ none := hturn.source ▸ hsource
  have hheard' : Signal.Opens Signal.isSubscribe (heard (deeds ++ turn.deeds)) := by
    rw [heard_append]
    exact hheard.append _
  rcases hsent with ⟨hsent, hrefusal⟩ | ⟨hsent, hrefusal⟩
  · refine .begun hkept ?_ hheard' ?_
    · simp only [take, sent_append]
      exact hsent.append _
    · simp only [take, refusal_append, hrefusal]
      exact foldl_after_settled hturn.deeds
  · refine .overtaken hkept ?_ hheard' ?_
    · simp only [take, sent_append]
      exact hsent.append _
    · simp only [take, refusal_append, hrefusal]
      exact foldl_after_overtaken _

theorem take_subscribe (handle : Handle) (hsource : t.source = none) (hattached : t.attached = true)
    (hdone : t.done = false) (hsent : sent deeds = []) (hheard : heard deeds = [])
    (hrefusal : refusal deeds = .settled) :
    Opening (take ⟨t, [], deeds ++ [.received (.signal (.subscribe handle))]⟩
      (t.onSubscribe L self handle)) := by
  unfold onSubscribe
  rw [hsource]
  unfold runHook
  rcases L.run t.listener .subscription with ⟨listener, _ | cause⟩
  · refine .begun ?_ ?_ ?_ ?_
    · simp [take, hattached, down]
    · simp [take, hattached, down, hsent, Next.deeds, Deed.sent?, Signal.Opens, Signal.isSubscribe]
    · simp [take, hheard, Deed.heard?, Signal.Opens, Signal.isSubscribe]
    · simp [take, hattached, down, hrefusal, Turn.deeds, Next.deeds, Refusal.after]
  · refine .refusing (Hook.subscription.fault cause) ?_ hattached hdone ?_ ?_ ?_
    · simp
    · simp [hsent, Deed.sent?, Next.deeds]
    · simp [hheard, Deed.heard?, Signal.Opens, Signal.isSubscribe]
    · simp [hrefusal, Turn.deeds, Next.deeds, Refusal.after]

theorem take_error (e : ε) (hsource : t.source = none) (hattached : t.attached = true)
    (hdone : t.done = false) (hsent : sent deeds = []) (hheard : heard deeds = [])
    (hrefusal : refusal deeds = .settled) :
    Opening (take ⟨t, [], deeds ++ [.received (.signal (.error e))]⟩ (t.onError L e)) := by
  have hplain := onError_plain (t := t) L e
  refine .misbegun ?_ ?_ ?_ ?_
  · exact hplain.source.trans hsource
  · rcases onError_open L e hdone hattached with ⟨e', r, -, hnext⟩ | ⟨f, h, hsome, -⟩
    · simp [take, hnext, hsent, Next.deeds, Deed.sent?, Signal.Opens, Signal.isError]
    · rw [hsource] at hsome
      cases hsome
  · simp [take, hheard, Deed.heard?, Signal.Opens, Signal.isError]
  · simp only [take, refusal_append, hrefusal, List.foldl_cons, List.foldl_nil, Refusal.after]
    exact foldl_after_settled hplain.settled.deeds

theorem take_overtaking (e : ε) (f : Fault) (hsource : t.source ≠ none)
    (hattached : t.attached = true) (hdone : t.done = false) (hsent : sent deeds = [])
    (hheard : Signal.Opens Signal.isSubscribe (heard deeds))
    (hrefusal : refusal deeds = .underway) :
    Opening (take ⟨t, [.refused f], deeds ++ [.received (.signal (.error e))]⟩
      (t.onError L e)) := by
  have hkept : (t.onError L e).tap.source ≠ none := by
    rw [(onError_plain L e).source]
    exact hsource
  have hheard' : Signal.Opens Signal.isSubscribe
      (heard (deeds ++ [.received (.signal (.error e))] ++ (t.onError L e).deeds)) := by
    rw [List.append_assoc, heard_append]
    exact hheard.append _
  have hrefusal' : refusal (deeds ++ [.received (.signal (.error e))] ++ (t.onError L e).deeds) =
      .overtaken := by
    simp only [refusal_append, hrefusal, List.foldl_cons, List.foldl_nil, Refusal.after]
    exact foldl_after_overtaken _
  rcases onError_open L e hdone hattached with ⟨e', r, -, hnext⟩ | ⟨f', h, -, hnext, hopen, hended⟩
  · refine .overtaken hkept ?_ hheard' hrefusal'
    simp [take, hnext, hsent, Next.deeds, Deed.sent?, Signal.Opens, Signal.isError]
  · have hpending : (t.onError L e).next.resume?.toList ++ [.refused f] =
        [.spoiled f' e, .refused f] := by
      simp [hnext, Next.resume?]
    unfold take
    rw [hpending]
    refine .spoiling f' e f hkept hopen hended ?_ hheard' hrefusal'
    simp [hnext, hsent, Next.deeds, Deed.sent?]

/-- No error came while the handle was being cancelled. -/
theorem take_refused (f : Fault) (hsource : t.source ≠ none) (hattached : t.attached = true)
    (hsent : sent deeds = []) (hheard : Signal.Opens Signal.isSubscribe (heard deeds))
    (hrefusal : refusal deeds = .underway) :
    Opening (take ⟨t, [], deeds⟩ (t.refused L f)) := by
  unfold refused report
  refine .begun ?_ ?_ ?_ ?_
  · simpa [take, hattached, down] using hsource
  · simp [take, hattached, down, hsent, Next.deeds, Deed.sent?, Signal.Opens, Signal.isSubscribe]
  · simpa [take, Deed.heard?] using hheard
  · simp [take, hattached, down, hrefusal, Turn.deeds, Next.deeds, Refusal.after]

/-- The fault over the error that overtook the refusal is sent. -/
theorem take_spoiled (f : Fault) (e : ε) (hsource : t.source ≠ none) (hattached : t.attached = true)
    (hsent : sent deeds = []) (hheard : Signal.Opens Signal.isSubscribe (heard deeds))
    (hrefusal : refusal deeds = .overtaken) :
    Opening (take ⟨t, pending, deeds⟩ (t.spoiled L f e)) := by
  unfold spoiled report terminate
  refine .overtaken ?_ ?_ ?_ ?_
  · simpa [take, hattached, down] using hsource
  · simp [take, hattached, down, hsent, Next.deeds, Deed.sent?, Signal.Opens, Signal.isError]
  · simpa [take, Deed.heard?] using hheard
  · simp only [take, refusal_append, hrefusal]
    exact foldl_after_overtaken _

variable {l l' : Life σ α ε}

/-- An error after the one that overtook the refusal goes nowhere. -/
theorem take_malformed (f : Fault) (e : ε) (g : Fault) (e' : ε) (hsource : t.source ≠ none)
    (hattached : t.attached = true) (hdone : t.done = true) (hsent : sent deeds = [])
    (hheard : Signal.Opens Signal.isSubscribe (heard deeds))
    (hrefusal : refusal deeds = .overtaken) :
    Opening (take ⟨t, [.spoiled f e, .refused g], deeds ++ [.received (.signal (.error e'))]⟩
      (t.onError L e')) := by
  obtain ⟨hnext, listener, htap⟩ := onError_closed L e' hdone
  unfold take
  rw [hnext, htap]
  refine .spoiling f e g hsource hattached hdone ?_ ?_ ?_
  · simp [hsent, hnext, Next.deeds, Deed.sent?]
  · rw [List.append_assoc, heard_append]
    exact hheard.append _
  · simp only [refusal_append, hrefusal]
    rw [foldl_after_overtaken, foldl_after_overtaken]

theorem step (h : l.Opening) (hstep : Step Ls self conditional (Courteous place) l l') :
    l'.Opening := by
  cases h with
  | fresh hsource hattached hdone hsent hheard hrefusal =>
      cases hstep with
      | @serve _ _ _ input ambient hinput =>
          have hopening := (hinput.opening hsource).2
          rcases input with (handle | x | x | e | _) | c
          · exact take_subscribe handle hsource hattached hdone hsent hheard hrefusal
          · simp [Input.isSubscribe, Input.isError] at hopening
          · simp [Input.isSubscribe, Input.isError] at hopening
          · exact take_error e hsource hattached hdone hsent hheard hrefusal
          · simp [Input.isSubscribe, Input.isError] at hopening
          · simp [Input.isSubscribe, Input.isError] at hopening
  | refusing f hsource hattached hdone hsent hheard hrefusal =>
      cases hstep with
      | @serve _ _ _ input ambient hinput =>
          -- Nothing but an error can come before the cancellation returns.
          have herror := (hinput.waiting _ rfl rfl).2
          rcases input with (handle | x | x | e | _) | c
          case signal.error =>
            exact take_overtaking e f hsource hattached hdone hsent hheard hrefusal
          all_goals cases herror
      | resume ambient b => exact take_refused f hsource hattached hsent hheard hrefusal
  | spoiling f e g hsource hattached hdone hsent hheard hrefusal =>
      cases hstep with
      | @serve _ _ _ input ambient hinput =>
          have herror := (hinput.waiting _ rfl rfl).2
          rcases input with (handle | x | x | e' | _) | c
          case signal.error =>
            exact take_malformed f e g e' hsource hattached hdone hsent hheard hrefusal
          all_goals cases herror
      | resume ambient b => exact take_spoiled f e hsource hattached hsent hheard hrefusal
  | begun hsource hsent hheard hrefusal =>
      cases hstep with
      | @serve t pending deeds input ambient hinput =>
          obtain ⟨first, hfirst⟩ := Option.ne_none_iff_exists'.mp hsource
          refine take_settled hsource (.inl ⟨?_, ?_⟩) ?_
            (serve_settled (Ls ambient) self conditional input hfirst)
          · simpa [Deed.sent?] using hsent
          · simp [hrefusal, Refusal.after]
          · simpa using hheard.append _
      | resume ambient b =>
          exact take_settled hsource (.inl ⟨hsent, hrefusal⟩) hheard
            (resume_settled (Ls ambient) _ b)
  | overtaken hsource hsent hheard hrefusal =>
      cases hstep with
      | @serve t pending deeds input ambient hinput =>
          obtain ⟨first, hfirst⟩ := Option.ne_none_iff_exists'.mp hsource
          refine take_settled hsource (.inr ⟨?_, ?_⟩) ?_
            (serve_settled (Ls ambient) self conditional input hfirst)
          · simpa [Deed.sent?] using hsent
          · simp [hrefusal, Refusal.after]
          · simpa using hheard.append _
      | resume ambient b =>
          exact take_settled hsource (.inr ⟨hsent, hrefusal⟩) hheard
            (resume_settled (Ls ambient) _ b)
  | misbegun hsource hsent hheard hrefusal =>
      cases hstep with
      | @serve t pending deeds input ambient hinput =>
          exact absurd (hinput.opening hsource).1 hheard.ne_nil
      | @resume t r pending deeds ambient b =>
          have hturn := resume_settled (t := t) (Ls ambient) r b
          refine .misbegun (hturn.source.trans hsource) ?_ ?_ ?_
          · simpa [take] using hsent.append _
          · simpa [take] using hheard
          · simp only [take, refusal_append, hrefusal]
            exact foldl_after_settled hturn.deeds

theorem begins (h : l.Opening) : sent l.deeds = [] ∨
    Signal.Opens Signal.isSubscribe (sent l.deeds) ∨
      Signal.Opens Signal.isError (sent l.deeds) := by
  cases h with
  | fresh _ _ _ hsent => exact .inl hsent
  | refusing _ _ _ _ hsent => exact .inl hsent
  | spoiling _ _ _ _ _ _ hsent => exact .inl hsent
  | begun _ hsent => exact .inr (.inl hsent)
  | overtaken _ hsent => exact .inr (.inr hsent)
  | misbegun _ hsent => exact .inr (.inr hsent)

/-- If no error overtook a refusal, what is sent begins with an error only if what is heard does. -/
theorem begins_of_not_overtaken (h : l.Opening) (hrefusal : refusal l.deeds ≠ .overtaken) :
    sent l.deeds = [] ∨ Signal.Opens Signal.isSubscribe (sent l.deeds) ∨
      Signal.Opens Signal.isError (heard l.deeds) := by
  cases h with
  | fresh _ _ _ hsent => exact .inl hsent
  | refusing _ _ _ _ hsent => exact .inl hsent
  | begun _ hsent => exact .inr (.inl hsent)
  | misbegun _ _ hheard => exact .inr (.inr hheard)
  | spoiling _ _ _ _ _ _ _ _ hsame => exact absurd hsame hrefusal
  | overtaken _ _ _ hsame => exact absurd hsame hrefusal

/-- If an error overtook a refusal, it is the first signal to be sent. -/
theorem begins_of_overtaken (h : l.Opening) (hrefusal : refusal l.deeds = .overtaken) :
    (sent l.deeds = [] ∧ l.pending ≠ []) ∨ Signal.Opens Signal.isError (sent l.deeds) := by
  cases h with
  | spoiling _ _ _ _ _ _ hsent => exact .inl ⟨hsent, by simp⟩
  | overtaken _ hsent => exact .inr hsent
  | fresh _ _ _ _ _ hsame =>
      rw [hrefusal] at hsame
      cases hsame
  | refusing _ _ _ _ _ _ hsame =>
      rw [hrefusal] at hsame
      cases hsame
  | begun _ _ _ hsame =>
      rw [hrefusal] at hsame
      cases hsame
  | misbegun _ _ _ hsame =>
      rw [hrefusal] at hsame
      cases hsame

/-- A tap that hears an error first sends an error first. -/
theorem begins_of_error (h : l.Opening)
    (hheard : heard l.deeds = [] ∨ Signal.Opens Signal.isError (heard l.deeds)) :
    (sent l.deeds = [] ∧ heard l.deeds = []) ∨ Signal.Opens Signal.isError (sent l.deeds) := by
  have hnot : ¬Signal.Opens Signal.isSubscribe (heard l.deeds) := by
    intro hsubscribe
    rcases hheard with hnil | herror
    · exact hsubscribe.ne_nil hnil
    · exact hsubscribe.not_isError herror
  cases h with
  | fresh _ _ _ hsent hnone => exact .inl ⟨hsent, hnone⟩
  | misbegun _ hsent => exact .inr hsent
  | refusing _ _ _ _ _ hsubscribe => exact absurd hsubscribe hnot
  | spoiling _ _ _ _ _ _ _ hsubscribe => exact absurd hsubscribe hnot
  | begun _ _ hsubscribe => exact absurd hsubscribe hnot
  | overtaken _ _ hsubscribe => exact absurd hsubscribe hnot

/-- A tap that has no handle has heard nothing, or an error first. -/
theorem unhandled (h : l.Opening) (hsource : l.tap.source = none) :
    heard l.deeds = [] ∨ Signal.Opens Signal.isError (heard l.deeds) := by
  cases h with
  | fresh _ _ _ _ hheard => exact .inl hheard
  | misbegun _ _ hheard => exact .inr hheard
  | refusing _ hsome => exact absurd hsource hsome
  | spoiling _ _ _ hsome => exact absurd hsource hsome
  | begun hsome => exact absurd hsource hsome
  | overtaken hsome => exact absurd hsource hsome

end Opening

theorem Lived.opening {Ls : Context → Listener σ α ε} {self : Handle} {conditional : Bool}
    {place : Nat} {l : Life σ α ε} (h : Lived Ls self conditional (Courteous place) l) :
    l.Opening :=
  h.invariant (fun _ => Opening.of_newborn) fun _ _ => Opening.step

/-- Next to the source nothing overtakes the refusal of a handle. -/
theorem Lived.not_overtaken {Ls : Context → Listener σ α ε} {self : Handle} {conditional : Bool}
    {l : Life σ α ε} (h : Lived Ls self conditional (Courteous 0) l) :
    refusal l.deeds ≠ .overtaken := by
  have hboth : l.Opening ∧ refusal l.deeds ≠ .overtaken := by
    refine h.invariant (motive := fun l => l.Opening ∧ refusal l.deeds ≠ .overtaken) ?_ ?_
    · intro first hfirst
      refine ⟨.of_newborn hfirst, ?_⟩
      obtain ⟨-, -, hdeeds | hdeeds⟩ := hfirst <;> simp [hdeeds, refusal, Refusal.after]
    · rintro now next ⟨hopening, hnow⟩ hstep
      refine ⟨hopening.step hstep, ?_⟩
      cases hstep with
      | @serve t pending deeds input ambient hinput =>
          simp only [take, refusal_append, List.foldl_cons, List.foldl_nil]
          apply foldl_after_turn
          cases hrefusal : refusal deeds with
          | settled => exact fun heq => by cases heq
          | overtaken => exact absurd hrefusal hnow
          | underway =>
              -- While the handle is being cancelled there is nobody before the tap to call it.
              cases hopening with
              | refusing f => cases (hinput.waiting _ rfl rfl).1
              | fresh _ _ _ _ _ hsame => rw [hrefusal] at hsame; cases hsame
              | spoiling _ _ _ _ _ _ _ _ hsame => rw [hrefusal] at hsame; cases hsame
              | begun _ _ _ hsame => rw [hrefusal] at hsame; cases hsame
              | overtaken _ _ _ hsame => rw [hrefusal] at hsame; cases hsame
              | misbegun _ _ _ hsame => rw [hrefusal] at hsame; cases hsame
      | resume ambient b =>
          simp only [take, refusal_append]
          exact foldl_after_turn _ hnow
  exact hboth.2

/-- Next to the source a tap that has no handle has heard nothing. -/
theorem Lived.unheard {Ls : Context → Listener σ α ε} {self : Handle} {conditional : Bool}
    {l : Life σ α ε} (h : Lived Ls self conditional (Courteous 0) l)
    (hsource : l.tap.source = none) : heard l.deeds = [] := by
  refine h.invariant (motive := fun l => l.tap.source = none → heard l.deeds = []) ?_ ?_ hsource
  · rintro first ⟨-, -, hdeeds | hdeeds⟩ - <;> simp [hdeeds, Deed.heard?]
  · intro now next hnow hstep hnone
    cases hstep with
    | @serve t pending deeds input ambient hinput =>
        cases ht : t.source with
        | none =>
            rcases (hinput.opening ht).2 with hsubscribe | ⟨hplace, -⟩
            · rcases input with (handle | x | x | e | _) | c
              · exact absurd hnone (onSubscribe_source (Ls ambient) self handle)
              all_goals cases hsubscribe
            · cases hplace
        | some first =>
            have hsettled := serve_settled (Ls ambient) self conditional input ht
            rw [take, hsettled.source, ht] at hnone
            cases hnone
    | @resume t r pending deeds ambient b =>
        have hsettled := resume_settled (t := t) (Ls ambient) r b
        rw [take, hsettled.source] at hnone
        simpa [take] using hnow hnone

/-- Next to the source a tap does not hear an error first. -/
theorem Lived.heard_not_isError {Ls : Context → Listener σ α ε} {self : Handle} {conditional : Bool}
    {l : Life σ α ε} (h : Lived Ls self conditional (Courteous 0) l) :
    ¬Signal.Opens Signal.isError (heard l.deeds) := by
  intro herror
  cases h.opening with
  | fresh _ _ _ _ hnone => exact herror.ne_nil hnone
  | misbegun hsource => exact herror.ne_nil (h.unheard hsource)
  | refusing _ _ _ _ _ hsubscribe => exact hsubscribe.not_isError herror
  | spoiling _ _ _ _ _ _ _ hsubscribe => exact hsubscribe.not_isError herror
  | begun _ _ hsubscribe => exact hsubscribe.not_isError herror
  | overtaken _ _ hsubscribe => exact hsubscribe.not_isError herror

end Life

end Tap

end Wiretap

import Wiretap.Proofs.Tap.Opening
import Wiretap.Proofs.Tap.Withdrawal

/-!
# The containment of a fault

A hook that fails while items, the completion or a request pass ends the stream: the source is
cancelled, the listener is told, and the receiver gets the fault. The source may answer the
cancellation with an error of its own. If the stream had not ended before, that error is passed on,
and the fault finds the receiver gone.
-/

namespace Wiretap

variable {K : Kinds} {σ α ε : Type}

/-- Is it the hook for a completion? -/
def Hook.isComplete : Hook α ε → Bool
  | .complete => true
  | _ => false

namespace Tap

/-- Does an error come before the next signal is sent? -/
def interrupted : List (Deed α ε) → Bool
  | [] => false
  | .received (.signal (.error _)) :: _ => true
  | .sent _ :: _ => false
  | _ :: deeds => interrupted deeds

theorem interrupted_append (first later : List (Deed α ε)) :
    interrupted (first ++ later) =
      (interrupted first || (sent first).isEmpty && interrupted later) := by
  induction first with
  | nil => simp [interrupted]
  | cons d first ih =>
      rcases d with _ | ((_ | _ | _ | _ | _) | _) | _ | _ | _ | _ <;>
        simp [interrupted, ih, Deed.sent?]

theorem interrupted_map_acted (acts : List (Act α ε)) :
    interrupted (acts.map (.acted : Act α ε → Deed α ε)) = false := by
  induction acts with
  | nil => rfl
  | cons act acts ih => exact ih

@[simp] theorem interrupted_turn_deeds (turn : Turn σ α ε) : interrupted turn.deeds = false := by
  rw [Turn.deeds, interrupted_append, interrupted_map_acted]
  cases hnext : turn.next <;> simp [Next.deeds, interrupted]

/-! ## The hook that fails -/

variable {L : Listener σ α ε} {Ls : Context → Listener σ α ε} {t : Tap σ} {h : Hook α ε}
  {cause : Cause}

/-- The tap ends the stream because the hook failed. -/
def Turn.Fails (L : Listener σ α ε) (t : Tap σ) (h : Hook α ε) (cause : Cause)
    (turn : Turn σ α ε) : Prop :=
  ∃ u : Tap σ, turn = (u.fail L (h.fault cause)).after (.ran h (some cause)) ∧
    u.attached = t.attached ∧ u.done = (t.done || h.isComplete)

theorem Turn.Withdraws.not_mem {turn : Turn σ α ε} (hturn : turn.Withdraws)
    (hhook : h.isContained = true) : .ran h (some cause) ∉ turn.acts := by
  intro hmem
  have hact := hturn.acts _ hmem
  simp only [Act.isContained, hhook] at hact
  cases hact

/-- If a contained failure is among the acts of a turn that begins with a hook, and what follows the
hook holds none, then it is that hook which failed. -/
theorem runHook_fails {h' : Hook α ε} {ok : Tap σ → Turn σ α ε}
    {failed : Tap σ → Fault → Turn σ α ε}
    (hmem : .ran h (some cause) ∈ (t.runHook L h' ok failed).acts)
    (hok : ∀ t, .ran h (some cause) ∉ (ok t).acts)
    (hfailed : ∀ t f, .ran h (some cause) ∉ (failed t f).acts) :
    h' = h ∧ ∃ listener, t.runHook L h' ok failed =
      (failed { t with listener := listener } (h.fault cause)).after (.ran h (some cause)) := by
  unfold runHook at hmem ⊢
  rcases hrun : L.run t.listener h' with ⟨listener, _ | cause'⟩
  · rw [hrun] at hmem
    rcases List.mem_cons.mp hmem with heq | hmem
    · cases heq
    · exact absurd hmem (hok _)
  · rw [hrun] at hmem
    rcases List.mem_cons.mp hmem with heq | hmem
    · cases heq
      exact ⟨rfl, listener, rfl⟩
    · exact absurd hmem (hfailed _ _)

theorem fail_not_mem (hhook : h.isContained = true) (t : Tap σ) (f : Fault) :
    .ran h (some cause) ∉ (t.fail L f).acts :=
  (fail_withdraws L f).not_mem hhook

theorem onNext_fails {x : α} (hhook : h.isContained = true)
    (hmem : .ran h (some cause) ∈ (t.onNext L x).acts) : (t.onNext L x).Fails L t h cause := by
  unfold onNext at hmem ⊢
  split
  next hdone =>
    rw [if_pos hdone] at hmem
    exact absurd hmem ((malformedNext_withdraws L x).not_mem hhook)
  next hdone =>
    rw [if_neg hdone] at hmem
    obtain ⟨rfl, listener, hturn⟩ := runHook_fails hmem (by
      intro u
      split
      · exact List.not_mem_nil
      · exact (dropItem_withdraws x).not_mem hhook) (fail_not_mem hhook)
    exact ⟨_, hturn, rfl, by simp [Hook.isComplete]⟩

theorem consumed_fails {x : α} (hhook : h.isContained = true)
    (hmem : .ran h (some cause) ∈ (t.consumed L x).acts) : (t.consumed L x).Fails L t h cause := by
  obtain ⟨rfl, listener, hturn⟩ :=
    runHook_fails hmem (fun _ => List.not_mem_nil) (fail_not_mem hhook)
  exact ⟨_, hturn, rfl, by simp [Hook.isComplete]⟩

theorem onComplete_fails (hhook : h.isContained = true)
    (hmem : .ran h (some cause) ∈ (t.onComplete L).acts) : (t.onComplete L).Fails L t h cause := by
  unfold onComplete at hmem ⊢
  split
  next hdone =>
    rw [if_pos hdone] at hmem
    have hmalformed : (t.runHook L .malformedComplete finish
        fun t f => t.dropFault L f finish).Withdraws :=
      runHook_withdraws L rfl (fun _ => finish_withdraws)
        fun _ _ => dropFault_withdraws L fun _ => finish_withdraws
    exact absurd hmem (hmalformed.not_mem hhook)
  next hdone =>
    rw [if_neg hdone] at hmem
    obtain ⟨rfl, listener, hturn⟩ := runHook_fails hmem (by
      intro u
      dsimp only
      split
      · exact List.not_mem_nil
      · exact (wrapUp_withdraws L rfl _).not_mem hhook) (fail_not_mem hhook)
    exact ⟨_, hturn, rfl, by simp [Hook.isComplete]⟩

theorem onRequest_fails {n : UInt64} (hhook : h.isContained = true)
    (hmem : .ran h (some cause) ∈ (t.onRequest L n).acts) :
    (t.onRequest L n).Fails L t h cause := by
  unfold onRequest at hmem ⊢
  split
  next hpositive =>
    rw [if_pos hpositive] at hmem
    obtain ⟨rfl, listener, hturn⟩ := runHook_fails hmem (by
      intro u
      split <;> exact List.not_mem_nil) (fail_not_mem hhook)
    exact ⟨_, hturn, rfl, by simp [Hook.isComplete]⟩
  next hpositive =>
    rw [if_neg hpositive] at hmem
    exact absurd hmem ((dropError_withdraws _).not_mem hhook)

theorem onSubscribe_not_mem {self handle : Handle} (hhook : h.isContained = true) :
    .ran h (some cause) ∉ (t.onSubscribe L self handle).acts := by
  unfold onSubscribe
  cases t.source with
  | some first => exact List.not_mem_nil
  | none =>
      intro hmem
      obtain ⟨rfl, -⟩ := runHook_fails hmem (by
        intro u
        split <;> exact List.not_mem_nil) fun _ _ => List.not_mem_nil
      cases hhook

theorem onOffer_not_mem {conditional : Bool} {x : α} (hhook : h.isContained = true) :
    .ran h (some cause) ∉ (t.onOffer L conditional x).acts := by
  unfold onOffer
  split
  · exact (malformedNext_withdraws L x).not_mem hhook
  · split
    · split <;> exact List.not_mem_nil
    · exact (dropItem_withdraws x).not_mem hhook

/-- However a tap is called, a contained hook that fails ends the stream. -/
theorem serve_fails {self : Handle} {conditional : Bool} {input : Input α ε}
    (hhook : h.isContained = true)
    (hmem : .ran h (some cause) ∈ (t.serve L self conditional input).acts) :
    (t.serve L self conditional input).Fails L t h cause := by
  rcases input with (handle | x | x | e | _) | (n | _)
  · exact absurd hmem (onSubscribe_not_mem hhook)
  · exact onNext_fails hhook hmem
  · exact absurd hmem (onOffer_not_mem hhook)
  · exact absurd hmem ((onError_withdraws L e).not_mem hhook)
  · exact onComplete_fails hhook hmem
  · exact onRequest_fails hhook hmem
  · exact absurd hmem ((onCancel_withdraws L).not_mem hhook)

theorem refused_not_mem {f : Fault} : .ran h (some cause) ∉ (t.refused L f).acts := by
  simp only [refused, report, Turn.acts_after, List.mem_cons, not_or]
  split <;> simp [down, finish, reply]

/-- Wherever a tap resumes, a contained hook that fails ends the stream. -/
theorem resume_fails {r : Resume α ε} {b : Bool} (hhook : h.isContained = true)
    (hmem : .ran h (some cause) ∈ (t.resume L r b).acts) :
    (t.resume L r b).Fails L t h cause := by
  cases r with
  | offered x =>
      cases b with
      | true => exact consumed_fails hhook hmem
      | false => exact absurd hmem List.not_mem_nil
  | sent x => exact consumed_fails hhook hmem
  | ignored => exact absurd hmem ((finish_withdraws.after rfl).not_mem hhook)
  | refused f => exact absurd hmem (refused_not_mem)
  | excused f => exact absurd hmem List.not_mem_nil
  | passedComplete => exact absurd hmem ((wrapUp_withdraws L rfl _).not_mem hhook)
  | _ => exact absurd hmem ((resume_withdraws L b rfl).not_mem hhook)

theorem calm_of_resume {r : Resume α ε} {b : Bool} (hhook : h.isContained = true)
    (hmem : .ran h (some cause) ∈ (t.resume L r b).acts) : r.isFatal = false := by
  cases r with
  | failed f => exact absurd hmem ((resume_withdraws L b rfl).not_mem hhook)
  | spoiled f e => exact absurd hmem ((resume_withdraws L b rfl).not_mem hhook)
  | refused f => exact absurd hmem refused_not_mem
  | _ => rfl

/-- An error never lets such a hook run. -/
theorem not_isError_of_serve {self : Handle} {conditional : Bool} {input : Input α ε}
    (hhook : h.isContained = true)
    (hmem : .ran h (some cause) ∈ (t.serve L self conditional input).acts) :
    input.isError = false := by
  rcases input with (_ | _ | _ | e | _) | _
  case signal.error => exact absurd hmem ((onError_withdraws L e).not_mem hhook)
  all_goals rfl

namespace Life

/-! ## The end of the stream -/

/-- The end of the stream has come while the receiver is still attached only if the receiver is to
get the last signal when a cancellation returns. -/
def Ending (l : Life σ α ε) : Prop :=
  l.tap.attached = true → l.tap.done = true → ∃ r ∈ l.pending.head?, r.isFatal = true

namespace Ending

variable {self : Handle} {conditional : Bool} {place : Nat} {pending : List (Resume α ε)}
  {deeds : List (Deed α ε)} {turn : Turn σ α ε} {l l' : Life σ α ε}

theorem of_newborn (h : l.Newborn) : l.Ending := by
  obtain ⟨⟨listener, context, htap⟩, -⟩ := h
  intro _ hdone
  rw [htap] at hdone
  cases hdone

theorem take_plain {unreported unsettled : List Fault} (hopen : t.attached = true → t.done = false)
    (hturn : turn.Plain t unreported unsettled) : Ending (take ⟨t, pending, deeds⟩ turn) := by
  intro hattached hdone
  have hfatal := hturn.ended (hopen (hturn.attached hattached)) hattached hdone
  cases hnext : turn.next.resume? with
  | none => simp [Next.isFatal, hnext] at hfatal
  | some r =>
      refine ⟨r, by simp [take, hnext], ?_⟩
      simpa [Next.isFatal, hnext] using hfatal

/-- Unless it waits to send the last signal, a tap with a receiver has not ended. -/
theorem opened (h : Ending ⟨t, pending, deeds⟩)
    (hhead : ∀ r ∈ pending.head?, r.isFatal = false) : t.attached = true → t.done = false := by
  intro hattached
  cases hdone : t.done with
  | false => rfl
  | true =>
      obtain ⟨r, hr, hfatal⟩ := h hattached hdone
      rw [hhead r hr] at hfatal
      cases hfatal

theorem take_onSubscribe (handle : Handle) (hopen : t.attached = true → t.done = false) :
    Ending (take ⟨t, pending, deeds⟩ (t.onSubscribe L self handle)) := by
  have hkept : (t.onSubscribe L self handle).tap.attached = t.attached ∧
      (t.onSubscribe L self handle).tap.done = t.done := by
    unfold onSubscribe runHook
    cases t.source with
    | some first => exact ⟨rfl, rfl⟩
    | none =>
        rcases L.run t.listener .subscription with ⟨listener, _ | cause⟩
        · cases hattached : t.attached <;> simp [down, finish, reply]
        · exact ⟨rfl, rfl⟩
  intro hattached hdone
  simp only [take, hkept] at hattached hdone
  rw [hopen hattached] at hdone
  cases hdone

/-- While the last signal waits, only an error can come. -/
theorem take_error (e : ε) (h : Ending ⟨t, pending, deeds⟩) :
    Ending (take ⟨t, pending, deeds ++ [.received (.signal (.error e))]⟩ (t.onError L e)) := by
  cases hdone : t.done with
  | false => exact take_plain (fun _ => hdone) (onError_plain L e)
  | true =>
      obtain ⟨hnext, listener, htap⟩ := onError_closed L e hdone
      intro hattached _
      simp only [take, htap] at hattached
      simpa [take, hnext, Next.resume?] using h hattached hdone

theorem step (h : l.Ending) (hstep : Step Ls self conditional (Courteous place) l l') :
    l'.Ending := by
  cases hstep with
  | @serve t pending deeds input ambient hinput =>
      by_cases hfatal : ∃ r ∈ pending.head?, r.isFatal = true
      · obtain ⟨r, hr, hfatal⟩ := hfatal
        have herror := (hinput.waiting r hr (Resume.waits_of_isFatal hfatal)).2
        rcases input with (handle | x | x | e | _) | c
        case signal.error => exact h.take_error e
        all_goals cases herror
      · have hopen := h.opened fun r hr => by simpa using fun hr' => hfatal ⟨r, hr, hr'⟩
        by_cases hsubscribe : ∃ handle, input = .signal (.subscribe handle)
        · obtain ⟨handle, rfl⟩ := hsubscribe
          exact take_onSubscribe handle hopen
        · exact take_plain hopen
            (serve_plain (Ls ambient) self conditional fun handle heq => hsubscribe ⟨handle, heq⟩)
  | @resume t r pending deeds ambient b =>
      have hlast : ∀ turn : Turn σ α ε, turn.tap.attached = false →
          Ending (take ⟨t, pending, deeds⟩ turn) := by
        intro turn hdetached hattached
        rw [take, hdetached] at hattached
        cases hattached
      cases r with
      | failed f => exact hlast _ (terminate_attached _)
      | spoiled f e => exact hlast _ (terminate_attached _)
      | refused f =>
          refine hlast _ ?_
          simp only [resume, refused, report]
          split <;> rfl
      | excused f =>
          intro hattached hdone
          have hopen := h.opened (by simp [Resume.isFatal]) hattached
          rw [take, resume, down, hopen] at hdone
          cases hdone
      | _ =>
          have hopen := h.opened (by simp [Resume.isFatal])
          exact take_plain hopen (resume_plain (Ls ambient) b rfl rfl)

end Ending

/-! ## The way of a fault -/

/-- What has become of the fault `f` since the deeds `before`, at a place of a line. It is `ended`
if the stream had ended when the hook failed. -/
inductive Contained (f : Fault) (ended : Bool) (place : Nat) (before : List (Deed α ε)) :
    Life σ α ε → Prop
  /-- The source is being cancelled. -/
  | waiting {t : Tap σ} {pending : List (Resume α ε)} {since : List (Deed α ε)}
    (hattached : t.attached = true) (hdone : t.done = ended) (hsent : sent since = [])
    (hopen : interrupted since = true → 0 < place ∧ ended = true) :
    Contained f ended place before ⟨t, .failed f :: pending, before ++ since⟩
  /-- An error came meanwhile, and the hook for it failed, too. -/
  | spoiling {t : Tap σ} {pending : List (Resume α ε)} {since : List (Deed α ε)} (g : Fault) (e : ε)
    (hattached : t.attached = true) (hdone : t.done = true) (hsent : sent since = [])
    (hinterrupted : interrupted since = true) (hended : 0 < place ∧ ended = false) :
    Contained f ended place before ⟨t, .spoiled g e :: .failed f :: pending, before ++ since⟩
  /-- The receiver got an error: the fault, unless an error came first. -/
  | settled {l : Life σ α ε} {since : List (Deed α ε)} {s : Signal α (TapError ε)}
    (hdeeds : l.deeds = before ++ since) (hsent : (sent since).head? = some s)
    (herror : s.isError = true)
    (hfirst : s = .error (.listener f) ↔ ended = true ∨ interrupted since = false)
    (hplace : interrupted since = true → 0 < place) :
    Contained f ended place before l

namespace Contained

variable {f : Fault} {ended : Bool} {place : Nat} {before : List (Deed α ε)} {self : Handle}
  {conditional : Bool} {pending : List (Resume α ε)} {since : List (Deed α ε)} {l l' : Life σ α ε}

theorem of_fail (hattached : t.attached = true) (hdone : t.done = ended) :
    Contained f ended place before (take ⟨t, pending, before⟩ (t.fail L f : Turn σ α ε)) := by
  unfold fail cancelSource
  cases t.source with
  | some h => exact .waiting hattached hdone rfl (by simp)
  | none =>
      refine .settled (s := .error (.listener f)) rfl ?_ rfl (by simp) (by simp)
      simp [failed, report, terminate, hattached, down, Deed.sent?, Next.deeds]

theorem take_failed (hattached : t.attached = true) (hsent : sent since = [])
    (hopen : interrupted since = true → 0 < place ∧ ended = true) :
    Contained f ended place before
      (take ⟨t, pending, before ++ since⟩ (t.failed L f : Turn σ α ε)) := by
  have hkept : interrupted (since ++ (t.failed L f : Turn σ α ε).deeds) = interrupted since := by
    simp [interrupted_append]
  refine .settled (s := .error (.listener f)) (List.append_assoc _ _ _) ?_ rfl ?_ ?_
  · simp [failed, report, terminate, hattached, down, hsent, Deed.sent?, Next.deeds]
  · rw [hkept]
    cases hinterrupted : interrupted since with
    | true => simp [(hopen hinterrupted).2]
    | false => simp
  · rw [hkept]
    exact fun hinterrupted => (hopen hinterrupted).1

/-- An error came before the end while the source was being cancelled. -/
theorem take_open (e : ε) (hplace : 0 < place) (hattached : t.attached = true)
    (hdone : t.done = false) (hsent : sent since = []) :
    Contained f false place before
      (take ⟨t, .failed f :: pending, before ++ since ++ [.received (.signal (.error e))]⟩
        (t.onError L e)) := by
  have hdeeds : before ++ since ++ [.received (.signal (.error e))] ++ (t.onError L e).deeds =
      before ++ (since ++ .received (.signal (.error e)) :: (t.onError L e).deeds) := by
    simp only [List.append_assoc, List.cons_append, List.nil_append]
  have hinterrupted : interrupted
      (since ++ .received (.signal (.error e)) :: (t.onError L e).deeds) = true := by
    simp [interrupted_append, interrupted, hsent]
  rcases onError_open L e hdone hattached with ⟨e', r, he', hnext⟩ | ⟨g, h, -, hnext, hopen, hend⟩
  · refine .settled (s := .error e') hdeeds ?_ rfl ?_ fun _ => hplace
    · simp [hsent, hnext, Deed.sent?, Next.deeds]
    · have hother : e' ≠ .listener f := by
        rintro rfl
        cases he'
      simp [hinterrupted, hother]
  · have hpending : (t.onError L e).next.resume?.toList ++ .failed f :: pending =
        .spoiled g e :: .failed f :: pending := by
      simp [hnext, Next.resume?]
    unfold take
    rw [hpending, hdeeds]
    refine .spoiling g e hopen hend ?_ hinterrupted ⟨hplace, rfl⟩
    simp [hsent, hnext, Deed.sent?, Next.deeds]

/-- An error came after the end while the source was being cancelled. -/
theorem take_malformed (e : ε) {waiting : List (Resume α ε)} (hattached : t.attached = true)
    (hdone : t.done = true) (hsent : sent since = [])
    (hnow : ∀ (u : Tap σ) (later : List (Deed α ε)), u.attached = true → u.done = true →
      sent later = [] → interrupted later = true →
      Contained f ended place before ⟨u, waiting, before ++ later⟩) :
    Contained f ended place before
      (take ⟨t, waiting, before ++ since ++ [.received (.signal (.error e))]⟩ (t.onError L e)) := by
  obtain ⟨hnext, listener, htap⟩ := onError_closed L e hdone
  unfold take
  rw [hnext, htap, List.append_assoc, List.append_assoc]
  refine hnow _ _ hattached hdone ?_ ?_
  · simp [hsent, hnext, Deed.sent?, Next.deeds]
  · simp [interrupted_append, interrupted, hsent]

/-- The fault over the error that came meanwhile is sent. -/
theorem take_spoiled (g : Fault) (e : ε) (hattached : t.attached = true) (hsent : sent since = [])
    (hinterrupted : interrupted since = true) (hended : 0 < place ∧ ended = false) :
    Contained f ended place before
      (take ⟨t, pending, before ++ since⟩ (t.spoiled L g e : Turn σ α ε)) := by
  refine .settled (s := .error (.multiple g e)) (List.append_assoc _ _ _) ?_ rfl ?_
    fun _ => hended.1
  · simp [spoiled, report, terminate, hattached, down, hsent, Deed.sent?, Next.deeds]
  · simp [interrupted_append, hinterrupted, hended.2]

/-- After the signal that settles it nothing matters. -/
theorem later {s : Signal α (TapError ε)} {more : List (Deed α ε)}
    (hdeeds : l.deeds = before ++ since) (hsent : (sent since).head? = some s)
    (herror : s.isError = true)
    (hfirst : s = .error (.listener f) ↔ ended = true ∨ interrupted since = false)
    (hplace : interrupted since = true → 0 < place) (hmore : l'.deeds = l.deeds ++ more) :
    Contained f ended place before l' := by
  have hkept : interrupted (since ++ more) = interrupted since := by
    cases hsince : sent since with
    | nil => simp [hsince] at hsent
    | cons s' passed => simp [interrupted_append, hsince]
  refine .settled (by rw [hmore, hdeeds, List.append_assoc]) ?_ herror (hkept ▸ hfirst)
    (hkept ▸ hplace)
  simp [hsent]

theorem step (h : l.Contained f ended place before)
    (hstep : Step Ls self conditional (Courteous place) l l') :
    l'.Contained f ended place before := by
  cases h with
  | waiting hattached hdone hsent hopen =>
      cases hstep with
      | @serve _ _ _ input ambient hinput =>
          -- Nothing but an error can come before the cancellation returns.
          obtain ⟨hplace, herror⟩ := hinput.waiting _ rfl rfl
          rcases input with (handle | x | x | e | _) | c
          case signal.error =>
            cases ended with
            | false => exact take_open e hplace hattached hdone hsent
            | true =>
                refine take_malformed e hattached hdone hsent fun u later hopen' hend hnone _ => ?_
                exact .waiting hopen' hend hnone fun _ => ⟨hplace, rfl⟩
          all_goals cases herror
      | resume ambient b => exact take_failed hattached hsent hopen
  | spoiling g e hattached hdone hsent hinterrupted hended =>
      cases hstep with
      | @serve _ _ _ input ambient hinput =>
          have herror := (hinput.waiting _ rfl rfl).2
          rcases input with (handle | x | x | e' | _) | c
          case signal.error =>
            refine take_malformed e' hattached hdone hsent fun u later hopen hend hnone hcame => ?_
            exact .spoiling g e hopen hend hnone hcame hended
          all_goals cases herror
      | resume ambient b => exact take_spoiled g e hattached hsent hinterrupted hended
  | settled hdeeds hsent herror hfirst hplace =>
      cases hstep with
      | serve ambient hinput =>
          exact later hdeeds hsent herror hfirst hplace (List.append_assoc _ _ _)
      | resume ambient b => exact later hdeeds hsent herror hfirst hplace rfl

theorem steps (h : l.Contained f ended place before)
    (hsteps : Relation.ReflTransGen (Step Ls self conditional (Courteous place)) l l') :
    l'.Contained f ended place before := by
  induction hsteps with
  | refl => exact h
  | tail _ hstep ih => exact ih.step hstep

/-- The first signal that the receiver gets is an error, and it is the fault unless an error came
first. -/
theorem verdict (h : l.Contained f ended place before) : ∃ since, l.deeds = before ++ since ∧
    (∀ s ∈ (sent since).head?, s.isError = true ∧
      (s = .error (.listener f) ↔ ended = true ∨ interrupted since = false)) ∧
    (interrupted since = true → 0 < place) ∧ (l.pending = [] → sent since ≠ []) := by
  cases h with
  | @waiting t pending since _ _ hsent hopen =>
      exact ⟨since, rfl, by simp [hsent], fun hcame => (hopen hcame).1, fun hnil => by cases hnil⟩
  | @spoiling t pending since g e _ _ hsent _ hended =>
      exact ⟨since, rfl, by simp [hsent], fun _ => hended.1, fun hnil => by cases hnil⟩
  | @settled l since s hdeeds hsent herror hfirst hplace =>
      refine ⟨since, hdeeds, ?_, hplace, fun _ hnil => by simp [hnil] at hsent⟩
      intro s' hs'
      rw [hsent] at hs'
      cases hs'
      exact ⟨herror, hfirst⟩

end Contained

theorem Contained.of_fails {h : Hook α ε} {place : Nat} {before : List (Deed α ε)}
    {pending : List (Resume α ε)} {turn : Turn σ α ε} (hturn : turn.Fails L t h cause)
    (hattached : t.attached = true) (hdone : t.done = false) :
    Contained (h.fault cause) h.isComplete place (before ++ [.acted (.ran h (some cause))])
      (take ⟨t, pending, before⟩ turn) := by
  obtain ⟨u, rfl, hopen, hended⟩ := hturn
  rw [hattached] at hopen
  rw [hdone, Bool.false_or] at hended
  have hfail : Contained (h.fault cause) h.isComplete place
      (before ++ [.acted (.ran h (some cause))]) (take ⟨u, pending, _⟩ (u.fail L _)) :=
    .of_fail hopen hended
  simpa [take] using hfail

/-- When a hook with a contained fault fails in a turn of a tap with a receiver, the fault is on its
way from then on. Before that no error came and nothing was sent. -/
theorem Ending.contains {h : Hook α ε} {self : Handle} {conditional : Bool} {place : Nat}
    {l l' : Life σ α ε} {shown : List (Deed α ε)} (hending : l.Ending)
    (hstep : Step Ls self conditional (Courteous place) l l') (hattached : l.tap.attached = true)
    (hhook : h.isContained = true) (hdeeds : l'.deeds = l.deeds ++ shown)
    (hmem : .acted (.ran h (some cause)) ∈ shown) :
    ∃ first, sent first = [] ∧ interrupted first = false ∧
      l'.Contained (h.fault cause) h.isComplete place (l.deeds ++ first) := by
  cases hstep with
  | @serve t pending deeds input ambient hinput =>
      have hshown :
          shown = .received input :: (t.serve (Ls ambient) self conditional input).deeds := by
        simpa [take] using hdeeds.symm
      rw [hshown] at hmem
      have hacts := Turn.acts_of_deeds ((List.mem_cons.mp hmem).resolve_left (by simp))
      have hother := not_isError_of_serve hhook hacts
      -- Nothing but an error could come while the last signal waits.
      have hcalm : ∀ r ∈ pending.head?, r.isFatal = false := by
        intro r hr
        by_contra hfatal
        have herror := (hinput.waiting r hr (Resume.waits_of_isFatal (by simpa using hfatal))).2
        rw [hother] at herror
        cases herror
      refine ⟨[.received input, .acted (.ran h (some cause))], by simp [Deed.sent?], ?_, ?_⟩
      · rcases input with (_ | _ | _ | _ | _) | _
        case signal.error => cases hother
        all_goals rfl
      · have hfails : Contained _ _ place _ (take ⟨t, pending, deeds ++ [.received input]⟩ _) :=
          .of_fails (serve_fails hhook hacts) hattached (hending.opened hcalm hattached)
        simpa using hfails
  | @resume t r pending deeds ambient b =>
      have hshown : shown = (t.resume (Ls ambient) r b).deeds := by
        simpa [take] using hdeeds.symm
      rw [hshown] at hmem
      have hacts := Turn.acts_of_deeds hmem
      have hcalm : ∀ r' ∈ (r :: pending).head?, r'.isFatal = false := by
        intro r' hr'
        cases hr'
        exact calm_of_resume hhook hacts
      refine ⟨[.acted (.ran h (some cause))], by simp [Deed.sent?], rfl, ?_⟩
      exact .of_fails (resume_fails hhook hacts) hattached (hending.opened hcalm hattached)

theorem Lived.ending {self : Handle} {conditional : Bool} {place : Nat} {l : Life σ α ε}
    (h : Lived Ls self conditional (Courteous place) l) : l.Ending :=
  h.invariant (fun _ => Ending.of_newborn) fun _ _ => Ending.step

end Life

end Tap

end Wiretap

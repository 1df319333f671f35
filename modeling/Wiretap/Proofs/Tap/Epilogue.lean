import Wiretap.Proofs.Tap.Routine

/-!
# The last hook after a fault

A subscription ends once, so only one hook after an ending ever runs. Together with the outlook this
tells what a fault means for the last hook. A fault that ends the stream rules it out. A fault of
the hook after the ending does not, and then the last hook runs if the receiver still cancels.
-/

namespace Wiretap

variable {K : Kinds} {σ α ε : Type}

namespace Tap

/-- Has an ending been passed on when the tap resumes? -/
def Resume.isPassed : Resume α ε → Bool
  | .passedError _ | .passedComplete => true
  | _ => false

/-- How many hooks after an ending have been run. -/
def afters (deeds : List (Deed α ε)) : Nat := deeds.countP Deed.isAfter

theorem afters_append (first second : List (Deed α ε)) :
    afters (first ++ second) = afters first + afters second := List.countP_append

theorem afters_cons (d : Deed α ε) (deeds : List (Deed α ε)) :
    afters (d :: deeds) = afters deeds + d.isAfter.toNat := by
  cases h : d.isAfter <;> simp [afters, h]

/-- The hooks after an ending that a turn runs, those that it leaves to be run, and one more if the
end can still come are within the budget. -/
def Turn.Spends (budget : Nat) (turn : Turn σ α ε) : Prop :=
  afters turn.deeds + turn.next.resume?.toList.countP Resume.isPassed +
    (!turn.tap.done).toNat ≤ budget

namespace Turn

variable {turn : Turn σ α ε} {t : Tap σ} {budget : Nat}

theorem Spends.after (h : turn.Spends budget) (act : Act α ε) :
    (turn.after act).Spends (budget + (.acted act : Deed α ε).isAfter.toNat) := by
  unfold Spends at h ⊢
  rw [deeds_after, tap_after, next_after, afters_cons]
  omega

theorem Spends.after_other {act : Act α ε} (h : turn.Spends budget)
    (hact : (.acted act : Deed α ε).isAfter = false) : (turn.after act).Spends budget := by
  have hafter := h.after act
  rwa [hact] at hafter

theorem Spends.mono {more : Nat} (h : turn.Spends budget) (hle : budget ≤ more) :
    turn.Spends more := Nat.le_trans h hle

theorem afters_deeds_of_routine (h : ∀ act ∈ turn.acts, act.isRoutine = true) :
    afters turn.deeds = 0 := by
  refine List.countP_eq_zero.mpr fun d hd => ?_
  rcases List.mem_append.mp hd with hact | hnext
  · obtain ⟨act, hmem, rfl⟩ := List.mem_map.mp hact
    have hroutine := h act hmem
    rcases act with ⟨hook, failure⟩ | _ | _ | _ | _ | _
    case ran => cases hook <;> first | exact Bool.false_ne_true | cases hroutine
    all_goals exact Bool.false_ne_true
  · cases hturn : turn.next <;> simp [hturn, Next.deeds] at hnext <;> simp [hnext, Deed.isAfter]

theorem Routine.spends (h : turn.Routine t) : turn.Spends (!t.done).toNat := by
  have hpassed : turn.next.resume?.toList.countP Resume.isPassed = 0 := by
    refine List.countP_eq_zero.mpr fun r hr => ?_
    have hroutine := h.resume r (by simpa using hr)
    cases r <;> first | exact Bool.false_ne_true | cases hroutine
  unfold Spends
  rw [afters_deeds_of_routine h.acts, hpassed]
  cases hdone : t.done with
  | true => simp [h.done hdone]
  | false => cases turn.tap.done <;> simp

end Turn

variable {t : Tap σ} (L : Listener σ α ε)

theorem runHook_spends {u : Tap σ} {budget : Nat} {h : Hook α ε} {ok : Tap σ → Turn σ α ε}
    {failed : Tap σ → Fault → Turn σ α ε} (hhook : h.isAfter = false)
    (hok : ∀ listener, (ok { u with listener := listener }).Spends budget)
    (hfailed : ∀ listener f, (failed { u with listener := listener } f).Spends budget) :
    (u.runHook L h ok failed).Spends budget := by
  unfold runHook
  rcases L.run u.listener h with ⟨listener, _ | cause⟩
  · exact (hok listener).after_other hhook
  · exact (hfailed listener _).after_other hhook

theorem dropFault_finish_spends (f : Fault) :
    (t.dropFault L f finish : Turn σ α ε).Spends (!t.done).toNat :=
  (dropFault_routine L fun _ => finish_routine.of_listener).spends

theorem wrapUp_spends (h : Hook α ε) (ending : Ending) :
    (t.wrapUp L h ending).Spends ((!t.done).toNat + 1) := by
  have hfinally : ∀ u : Tap σ,
      (u.runFinally L ending finish fun t f => t.dropFault L f finish).Spends (!u.done).toNat := by
    intro u
    unfold runFinally
    split
    · exact finish_routine.spends
    · exact runHook_spends L rfl (fun listener => finish_routine.spends)
        fun listener f => dropFault_finish_spends L f
  have hle : h.isAfter.toNat ≤ 1 := Bool.toNat_le _
  unfold wrapUp runHook
  rcases L.run t.listener h with ⟨listener, _ | cause⟩
  · exact ((hfinally { t with listener := listener }).after _).mono (Nat.add_le_add_left hle _)
  · exact ((dropFault_finish_spends (t := { t with listener := listener }) L _).after _).mono
      (Nat.add_le_add_left hle _)

theorem released_spends : (t.released L).Spends (!t.done).toNat := by
  unfold released runFinally
  split
  · exact (finish_routine (t := { t with attached := false })).spends
  · refine runHook_spends L rfl (fun listener => ?_) fun listener f => ?_
    · exact (finish_routine (t := { t with listener, attached := false, finalized := true })).spends
    · exact (fail_routine (t := { t with listener, finalized := true }) L f).spends

theorem onError_spends (e : ε) : (t.onError L e).Spends (!t.done).toNat := by
  cases hdone : t.done with
  | true =>
      have hroutine := (malformedError_routine L e hdone).spends
      rwa [hdone] at hroutine
  | false =>
      unfold onError
      rw [if_neg (by simp [hdone])]
      refine runHook_spends L rfl (fun listener => ?_) fun listener f => ?_
      · dsimp only
        split
        · simp [Turn.Spends, Tap.down, Turn.deeds, Next.deeds, Next.resume?, afters,
            Deed.isAfter, List.countP_cons, Resume.isPassed]
        · exact (wrapUp_spends (t := { t with listener, attached := false, done := true }) L _
            _).after_other rfl
      · have hcancel := cancelSource_routine (t := { t with listener, done := true })
          (r := .spoiled f e) rfl (spoiled_routine L f e)
        exact hcancel.spends.mono (Nat.zero_le 1)

theorem onComplete_spends : (t.onComplete L).Spends (!t.done).toNat := by
  cases hdone : t.done with
  | true =>
      have hroutine := (malformedComplete_routine (α := α) (ε := ε) L hdone).spends
      rwa [hdone] at hroutine
  | false =>
      unfold onComplete
      rw [if_neg (by simp [hdone])]
      refine runHook_spends L rfl (fun listener => ?_) fun listener f => ?_
      · dsimp only
        split
        · simp [Turn.Spends, Tap.down, Turn.deeds, Next.deeds, Next.resume?, afters,
            Deed.isAfter, List.countP_cons, Resume.isPassed]
        · exact wrapUp_spends (t := { t with listener, attached := false, done := true }) L _ _
      · exact (fail_routine (t := { t with listener, done := true }) L f).spends.mono
          (Nat.zero_le 1)

theorem onCancel_spends : (t.onCancel L).Spends (!t.done).toNat := by
  refine runHook_spends L rfl (fun listener => ?_) fun listener f => ?_
  · unfold cancelSource
    split
    · simp [Turn.Spends, Turn.deeds, Next.deeds, Next.resume?, afters, Resume.isPassed]
    · exact released_spends (t := { t with listener }) L
  · exact (failed_routine (t := { t with listener }) L f).spends

theorem serve_spends (self : Handle) (conditional : Bool) (input : Input α ε) :
    (t.serve L self conditional input).Spends (!t.done).toNat := by
  cases hinput : input.isEnd with
  | false => exact (serve_routine L self conditional hinput).spends
  | true =>
      rcases input with (h | x | x | e | _) | (n | _)
      case signal.error => exact onError_spends L e
      case signal.complete => exact onComplete_spends L
      case control.cancel => exact onCancel_spends L
      all_goals cases hinput

theorem resume_spends (r : Resume α ε) (b : Bool) :
    (t.resume L r b).Spends ((!t.done).toNat + r.isPassed.toNat) := by
  cases hr : r.isRoutine with
  | true => exact (resume_routine L b hr).spends.mono (Nat.le_add_right _ _)
  | false =>
      cases r with
      | passedError e => exact wrapUp_spends L _ _
      | passedComplete => exact wrapUp_spends L _ _
      | released => exact released_spends L
      | _ => cases hr

namespace Life

/-- The outlook fits what has been seen of the tap, and no hook after an ending runs twice. -/
structure Foreseen (l : Life σ α ε) : Prop where
  outlook : Outlook.possible.run l.deeds = some (.of l.tap l.pending.head?)
  /-- Only the innermost call may be a cancellation. -/
  calm : ∀ r ∈ l.pending.tail, r.waits = false
  afters : afters l.deeds + l.pending.countP Resume.isPassed + (!l.tap.done).toNat ≤ 1

namespace Foreseen

variable {pending : List (Resume α ε)} {deeds : List (Deed α ε)} {o : Outlook}
  {turn : Turn σ α ε}

theorem of_newborn {l : Life σ α ε} (h : l.Newborn) : l.Foreseen := by
  obtain ⟨⟨listener, context, htap⟩, hpending, hdeeds⟩ := h
  constructor
  · rcases hdeeds with hdeeds | hdeeds <;> rw [hdeeds, hpending, htap] <;> rfl
  · simp [hpending]
  · rcases hdeeds with hdeeds | hdeeds <;> rw [hdeeds, hpending, htap] <;>
      simp [Tap.afters, Deed.isAfter, Hook.isAfter, start]

theorem take {budget : Nat} (houtlook : Outlook.possible.run deeds = some o)
    (hcalm : ∀ r ∈ pending, r.waits = false) (hkeeps : turn.Keeps o)
    (hafters : Tap.afters deeds + pending.countP Resume.isPassed + budget ≤ 1)
    (hspends : turn.Spends budget) :
    Foreseen (Life.take ⟨t, pending, deeds⟩ turn) := by
  constructor
  · have hrun : Outlook.possible.run (deeds ++ turn.deeds) =
        some (.of turn.tap turn.next.resume?) := by
      rw [Outlook.run_append, houtlook]
      exact hkeeps
    rw [Life.take, hrun]
    cases hnext : turn.next.resume? with
    | some r => simp
    | none =>
        -- The turn left no call, so the tap is back in one that waits for no cancellation.
        cases pending with
        | nil => rfl
        | cons r rest => simp [Outlook.of_not_waits (hcalm r List.mem_cons_self)]
  · intro r hr
    dsimp only [Life.take] at hr
    cases hnext : turn.next.resume? with
    | some r' => exact hcalm r (by simpa [hnext] using hr)
    | none => exact hcalm r (List.mem_of_mem_tail (by simpa [hnext] using hr))
  · unfold Turn.Spends at hspends
    dsimp only [Life.take]
    rw [afters_append, List.countP_append]
    omega

theorem step {Ls : Context → Listener σ α ε} {self : Handle} {conditional : Bool}
    {l l' : Life σ α ε} (h : l.Foreseen) (hstep : Step Ls self conditional (Courteous 0) l l') :
    l'.Foreseen := by
  obtain ⟨houtlook, hcalm, hafters⟩ := h
  cases hstep with
  | @serve t pending deeds input ambient hinput =>
      have hpending : ∀ r ∈ pending, r.waits = false := by
        intro r hr
        cases pending with
        | nil => cases hr
        | cons r' rest =>
            rcases List.mem_cons.mp hr with rfl | hr
            · cases hwaits : r.waits with
              | false => rfl
              | true => exact absurd (hinput.waiting r (by simp) hwaits).1 (Nat.lt_irrefl 0)
            · exact hcalm r hr
      have hopen : Outlook.of t pending.head? = t.outlook α ε := by
        cases pending with
        | nil => rfl
        | cons r rest => exact Outlook.of_not_waits (hpending r List.mem_cons_self)
      refine take (o := t.outlook α ε) ?_ hpending
        (serve_keeps (Ls ambient) self conditional input) ?_
        (serve_spends (Ls ambient) self conditional input)
      · have hreceived := Outlook.after_other (o := t.outlook α ε)
          (d := (.received input : Deed α ε)) (fun _ => Outlook.of_none_ne_due) rfl rfl rfl
        rw [Outlook.run_append, houtlook, hopen]
        simp [hreceived]
      · simpa [afters_append, Tap.afters, List.countP_cons, Deed.isAfter] using hafters
  | @resume t r pending deeds ambient b =>
      refine take houtlook hcalm (resume_keeps (Ls ambient) r b) ?_ (resume_spends (Ls ambient) r b)
      dsimp only at hafters
      cases hr : r.isPassed <;> simp [hr] at hafters ⊢ <;> omega

end Foreseen

variable {Ls : Context → Listener σ α ε} {self : Handle} {conditional : Bool} {l : Life σ α ε}

theorem Lived.foreseen (h : Lived Ls self conditional (Courteous 0) l) : l.Foreseen :=
  h.invariant (fun _ => Foreseen.of_newborn) fun _ _ => Foreseen.step

/-- A hook that has failed leaves room for the last one: it was the hook after an ending, nothing
had settled the last hook before, and nothing settles it until the receiver cancels. -/
def Reopened (h : Hook α ε) (before later : List (Deed α ε)) : Prop :=
  h.isAfter = true ∧ (∀ d ∈ before, d.settles = false) ∧
    ∃ between rest, later = between ++ .acted (.ran .cancel none) :: rest ∧
      ∀ d ∈ between, d.settles = false

/-- After the failure of a hook of the subscription, the last hook runs only if there is room. -/
theorem Foreseen.reopened {h : Hook α ε} {cause : Cause} {before later : List (Deed α ε)}
    (hl : l.Foreseen) (hdeeds : l.deeds = before ++ .acted (.ran h (some cause)) :: later)
    (hhook : h.isFatal = true ∨ h.isAfter = true) {ending : Ending} {failure : Option Cause}
    (hlater : .acted (.ran (.finally ending) failure) ∈ later) :
    ending = .cancel ∧ Reopened h before later := by
  obtain ⟨start, rest, rfl⟩ := List.append_of_mem hlater
  have houtlook := hl.outlook
  rw [hdeeds, ← List.cons_append, ← List.append_assoc] at houtlook
  obtain ⟨earlier, announcement, heq, hannounces, hearlier⟩ :=
    Outlook.announced_of_run houtlook rfl
  -- What announces the last hook is a success, so it comes after the failure.
  rcases List.eq_nil_or_concat start with rfl | ⟨between, announcement', rfl⟩
  · obtain ⟨-, hsame⟩ := List.append_inj' heq rfl
    cases hsame
    cases hannounces
  rw [List.concat_eq_append, ← List.cons_append, ← List.append_assoc] at heq
  obtain ⟨rfl, hsame⟩ := List.append_inj' heq rfl
  cases hsame
  have hafter : h.isAfter = true := by
    rcases hhook with hfatal | hafter
    · have hsettles := hearlier (.acted (.ran h (some cause))) (by simp)
      simp [Deed.settles, Deed.isFatal, hfatal] at hsettles
    · exact hafter
  have honce : announcement.isAfter = false := by
    have hfirst : (.acted (.ran h (some cause)) : Deed α ε).isAfter = true := hafter
    have hafters := hl.afters
    rw [hdeeds] at hafters
    simp only [afters_append, afters_cons, List.concat_eq_append, hfirst, Bool.toNat_true]
      at hafters
    cases hagain : announcement.isAfter with
    | false => rfl
    | true =>
        simp only [hagain, Bool.toNat_true] at hafters
        omega
  have hcancel : announcement = .acted (.ran .cancel none) ∧ ending = .cancel := by
    rcases announcement with _ | _ | (⟨hook, _ | cause⟩ | _ | _ | _ | _ | _) | _ | _ | _
    case acted.ran.none =>
      cases hook with
      | cancel => exact ⟨rfl, (Option.some.inj hannounces).symm⟩
      | afterError e => cases honce
      | afterComplete => cases honce
      | _ => cases hannounces
    all_goals cases hannounces
  obtain ⟨rfl, rfl⟩ := hcancel
  refine ⟨rfl, hafter, fun d hd => hearlier d (by simp [hd]), between,
    .acted (.ran (.finally .cancel) failure) :: rest, by simp, ?_⟩
  exact fun d hd => hearlier d (by simp [hd])

/-- If there is room, the last hook has run once all calls have returned. -/
theorem Foreseen.runs_of_reopened {h : Hook α ε} {cause : Cause} {before later : List (Deed α ε)}
    (hl : l.Foreseen) (hdeeds : l.deeds = before ++ .acted (.ran h (some cause)) :: later)
    (hpending : l.pending = []) (hreopened : Reopened h before later) :
    ∃ failure, .acted (.ran (.finally .cancel) failure) ∈ later := by
  obtain ⟨hafter, hbefore, between, rest, rfl, hbetween⟩ := hreopened
  have houtlook := hl.outlook
  rw [hdeeds, ← List.cons_append, ← List.append_assoc] at houtlook
  have hfailed : (.acted (.ran h (some cause)) : Deed α ε).settles = false := by
    cases h <;> first | rfl | cases hafter
  obtain ⟨d, hd, hending⟩ := Outlook.runs_of_announced houtlook
    (by simpa [or_imp, forall_and] using ⟨hbefore, hfailed, hbetween⟩) rfl
    (fun ending => by rw [hpending]; exact Outlook.of_none_ne_due)
  rcases d with _ | _ | (⟨hook, failure⟩ | _ | _ | _ | _ | _) | _ | _ | _
  case acted.ran =>
    cases hook with
    | «finally» ending =>
        cases hending
        exact ⟨failure, by simp [hd]⟩
    | _ => cases hending
  all_goals cases hending

end Life

end Tap

end Wiretap

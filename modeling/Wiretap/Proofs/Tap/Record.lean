import Wiretap.Proofs.Tap.Calls

/-!
# The record of a tap

At every moment the points where a tap will resume match its open calls, and the last hook has run
at most once, and then it is settled. As long as no hook has failed more is known: the last hook has
run if it is settled, and that is so once the subscription has ended, unless the call that ended it
is still open.
-/

namespace Wiretap

variable {K : Kinds} {σ α ε : Type}

namespace Tap

/-- Was the tap called with an ending, or cancelled? -/
def Deed.isEnd : Deed α ε → Bool
  | .received input => input.isEnd
  | _ => false

/-- Has the tap been called with an ending, or been cancelled? -/
def ended (deeds : List (Deed α ε)) : Bool := deeds.any Deed.isEnd

@[simp] theorem ended_append (first second : List (Deed α ε)) :
    ended (first ++ second) = (ended first || ended second) := List.any_append

@[simp] theorem failures_append (first second : List (Deed α ε)) :
    failures (first ++ second) = failures first ++ failures second := List.filterMap_append

@[simp] theorem ended_turn_deeds (turn : Turn σ α ε) : ended turn.deeds = false := by
  refine List.any_eq_false.mpr fun d hd => ?_
  cases d with
  | received input => exact absurd hd (Turn.received_not_mem input)
  | _ => exact Bool.false_ne_true

variable {t : Tap σ} {turn : Turn σ α ε}

/-! ## Turns without a fault -/

theorem runHook_unfailing {L : Listener σ α ε} {u : Tap σ} {h : Hook α ε} {ok : Tap σ → Turn σ α ε}
    {failed : Tap σ → Fault → Turn σ α ε} (hnone : failures (u.runHook L h ok failed).deeds = []) :
    ∃ listener, u.runHook L h ok failed =
        (ok { u with listener := listener }).after (.ran h none) ∧
      failures (ok { u with listener := listener }).deeds = [] := by
  unfold runHook at hnone ⊢
  cases hrun : L.run u.listener h with
  | mk listener failure =>
      rw [hrun] at hnone
      cases failure with
      | none => exact ⟨listener, rfl, hnone⟩
      | some cause => simp [failures] at hnone

theorem wrapUp_finalized {L : Listener σ α ε} {h : Hook α ε} {ending : Ending}
    (hnone : failures (t.wrapUp L h ending).deeds = []) :
    (t.wrapUp L h ending).tap.finalized = true := by
  unfold wrapUp at hnone ⊢
  obtain ⟨listener, heq, hrest⟩ := runHook_unfailing hnone
  rw [heq, Turn.tap_after]
  unfold runFinally at hrest ⊢
  split at hrest
  next hfinalized =>
    rw [if_pos hfinalized]
    exact hfinalized
  next hopen =>
    obtain ⟨listener', heq', -⟩ := runHook_unfailing hrest
    rw [if_neg hopen, heq']
    rfl

theorem released_finalized (L : Listener σ α ε) : (t.released L).tap.finalized = true := by
  unfold released runFinally
  split
  next hfinalized => exact hfinalized
  next =>
    unfold runHook
    rcases L.run t.listener (.finally .cancel) with ⟨listener, _ | cause⟩
    · rfl
    · exact (fail_routine (t := { t with listener, finalized := true }) L _).finalized rfl

/-- A call that ends the subscription settles the last hook, or will when it goes on. -/
theorem serve_closing {L : Listener σ α ε} {self : Handle} {conditional : Bool} {input : Input α ε}
    (hinput : input.isEnd = true) (hdone : t.done = false)
    (hnone : failures (t.serve L self conditional input).deeds = []) :
    (t.serve L self conditional input).tap.finalized = true ∨
      ∃ r ∈ (t.serve L self conditional input).next.resume?, r.isRoutine = false := by
  rcases input with (h | x | x | e | _) | (n | _)
  case signal.error =>
    simp only [serve, receive, onError, hdone, Bool.false_eq_true, if_false] at hnone ⊢
    obtain ⟨listener, heq, hrest⟩ := runHook_unfailing hnone
    rw [heq, Turn.tap_after, Turn.next_after]
    dsimp only at hrest ⊢
    split at hrest
    next hattached =>
      rw [if_pos hattached]
      exact .inr ⟨_, rfl, rfl⟩
    next hdetached =>
      rw [if_neg hdetached]
      exact .inl (wrapUp_finalized hrest)
  case signal.complete =>
    simp only [serve, receive, onComplete, hdone, Bool.false_eq_true, if_false] at hnone ⊢
    obtain ⟨listener, heq, hrest⟩ := runHook_unfailing hnone
    rw [heq, Turn.tap_after, Turn.next_after]
    dsimp only at hrest ⊢
    split at hrest
    next hattached =>
      rw [if_pos hattached]
      exact .inr ⟨_, rfl, rfl⟩
    next hdetached =>
      rw [if_neg hdetached]
      exact .inl (wrapUp_finalized hrest)
  case control.cancel =>
    obtain ⟨listener, heq, hrest⟩ := runHook_unfailing hnone
    rw [serve, obey, onCancel, heq, Turn.tap_after, Turn.next_after]
    unfold cancelSource
    split
    · exact .inr ⟨_, rfl, rfl⟩
    · exact .inl (released_finalized L)
  all_goals cases hinput

/-- A tap that goes on with the end of its subscription settles the last hook. -/
theorem resume_closing {L : Listener σ α ε} {r : Resume α ε} {b : Bool} (hr : r.isRoutine = false)
    (hnone : failures (t.resume L r b).deeds = []) : (t.resume L r b).tap.finalized = true := by
  cases r with
  | passedError e => exact wrapUp_finalized hnone
  | passedComplete => exact wrapUp_finalized hnone
  | released => exact released_finalized L
  | _ => cases hr

/-- If no hook fails in a turn, then what settles the last hook is that it runs. -/
theorem Turn.Keeps.runs {o : Outlook} (h : turn.Keeps o) (ho : o ≠ .settled)
    (hnone : failures turn.deeds = [])
    (hsettled : Outlook.of turn.tap turn.next.resume? = .settled) : 0 < endings turn.deeds := by
  by_contra hendings
  refine Outlook.run_ne_settled h ho (fun d hd => ?_) hsettled
  have hending : d.ending? = none := by
    have hzero := List.countP_eq_zero.mp (Nat.eq_zero_of_not_pos hendings) d hd
    simpa using hzero
  have hfailure : d.failure? = none := List.filterMap_eq_nil_iff.mp hnone d hd
  rcases d with _ | _ | (⟨_, _ | cause⟩ | _ | _ | _ | _ | _) | _ | _ | _
  case acted.ran.some => cases hfailure
  all_goals simp [Deed.settles, hending, Deed.isFatal]

/-! ## Records -/

/-- What is known as long as no hook has failed. -/
structure Unspoiled (t : Tap σ) (pending : List (Resume α ε)) (deeds : List (Deed α ε)) :
    Prop where
  /-- The last hook is only settled by its run. -/
  ran : t.finalized = true → 0 < endings deeds
  /-- As long as it is not, no fault is on its way. -/
  clean : t.finalized = false → ∀ r ∈ pending, r.unreported? = none
  /-- The end does not come by itself. -/
  fresh : ended deeds = false →
    t.finalized = false ∧ t.done = false ∧ ∀ r ∈ pending, r.isRoutine = true
  /-- After the end the last hook is settled or will be. -/
  closing : ended deeds = true → t.finalized = true ∨ ∃ r ∈ pending, r.isRoutine = false

/-- The record of a tap. -/
structure Record (t : Tap σ) (pending : List (Resume α ε)) (calls : List (OpenCall α ε))
    (deeds : List (Deed α ε)) : Prop where
  fits : List.Forall₂ (fun r call => call.Fits t r) pending calls
  shut : t.Shut
  once : endings deeds ≤ t.finalized.toNat
  unspoiled : failures deeds = [] → Unspoiled t pending deeds

namespace Record

variable {pending : List (Resume α ε)} {calls : List (OpenCall α ε)} {deeds : List (Deed α ε)}
  {call : OpenCall α ε}

theorem start (listener : σ) (context : Context) (hdeeds : deeds = [] ∨
      deeds = [.created none, .acted (.ran .first none), .acted (.augmented none)]) :
    Record (.start listener context) ([] : List (Resume α ε)) [] deeds where
  fits := .nil
  shut := fun hdone => Bool.noConfusion hdone
  once := by rcases hdeeds with rfl | rfl <;> exact Nat.le_refl 0
  unspoiled := fun _ => {
    ran := fun hfinalized => Bool.noConfusion hfinalized
    clean := by simp
    fresh := by simp [Tap.start]
    closing := fun hended => by rcases hdeeds with rfl | rfl <;> exact Bool.noConfusion hended }

/-- The calls that are open after a turn in `call`. -/
def callsAfter (call : OpenCall α ε) (calls : List (OpenCall α ε)) (turn : Turn σ α ε) :
    List (OpenCall α ε) :=
  match turn.next.resume? with
  | some _ => call.did turn.doings :: calls
  | none => calls

theorem fits_after (hfits : List.Forall₂ (fun r call => call.Fits t r) pending calls)
    (hbooks : turn.Books t call)
    (hsource : t.source.isSome = true → turn.tap.source.isSome = true) :
    List.Forall₂ (fun r call => call.Fits turn.tap r) (turn.next.resume?.toList ++ pending)
      (callsAfter call calls turn) := by
  have hrest : List.Forall₂ (fun r call => call.Fits turn.tap r) pending calls :=
    hfits.imp fun _ _ h => h.of_source hsource
  have hnew := hbooks.fits
  unfold callsAfter
  cases hnext : turn.next.resume? with
  | none => exact hrest
  | some r => exact .cons (hnew r hnext) hrest

theorem once_after (honce : endings deeds ≤ t.finalized.toNat) (hbooks : turn.Books t call) :
    endings (deeds ++ turn.deeds) ≤ turn.tap.finalized.toNat := by
  have hbooked := hbooks.once
  rw [endings_append]
  omega

theorem finalized_mono (hbooks : turn.Books t call) (hfinalized : t.finalized = true) :
    turn.tap.finalized = true := by
  have hbooked := hbooks.once
  cases hnow : turn.tap.finalized with
  | true => rfl
  | false => simp [hfinalized, hnow] at hbooked

end Record

namespace Unspoiled

variable {pending : List (Resume α ε)} {deeds : List (Deed α ε)} {call : OpenCall α ε}
  {o : Outlook}

/-- A turn without a fault, when no fault is on its way. -/
theorem take (hran : t.finalized = true → 0 < endings deeds)
    (hclean : t.finalized = false → o ≠ .settled ∧ ∀ r ∈ pending, r.unreported? = none)
    (hbooks : turn.Books t call) (hkeeps : turn.Keeps o) (hnone : failures turn.deeds = [])
    (hfresh : ended deeds = false →
      t.finalized = false ∧ t.done = false ∧ turn.Routine t ∧ ∀ r ∈ pending, r.isRoutine = true)
    (hclosing : ended deeds = true → t.finalized = true ∨ turn.tap.finalized = true ∨
      (∃ r ∈ turn.next.resume?, r.isRoutine = false) ∨ ∃ r ∈ pending, r.isRoutine = false) :
    Unspoiled turn.tap (turn.next.resume?.toList ++ pending) (deeds ++ turn.deeds) := by
  have hbooked := hbooks.once
  -- What settles the last hook in this turn is that it runs.
  have hruns : t.finalized = false → Outlook.of turn.tap turn.next.resume? = .settled →
      0 < endings turn.deeds := fun hopen => hkeeps.runs (hclean hopen).1 hnone
  constructor
  · intro hfinalized
    rw [endings_append]
    cases hbefore : t.finalized with
    | true =>
        have hearlier := hran hbefore
        omega
    | false =>
        have hnow := hruns hbefore (Outlook.of_eq_settled.mpr (.inl hfinalized))
        omega
  · intro hopen r hr
    have hbefore : t.finalized = false := by
      by_contra hfinalized
      rw [Record.finalized_mono hbooks (by simpa using hfinalized)] at hopen
      cases hopen
    rcases List.mem_append.mp hr with hnew | hold
    · by_contra hfault
      have hnow := hruns hbefore (Outlook.of_eq_settled.mpr
        (.inr ⟨r, by simpa using hnew, Option.isSome_iff_ne_none.mpr hfault⟩))
      simp [hopen] at hbooked
      omega
    · exact (hclean hbefore).2 r hold
  · intro hended
    obtain ⟨hopen, hdone, hroutine, hpending⟩ := hfresh (by simpa using hended)
    have hfinalized : turn.tap.finalized = false := by
      by_contra hfinalized
      have hnow := hruns hopen (Outlook.of_eq_settled.mpr (.inl (by simpa using hfinalized)))
      rw [Turn.endings_deeds_of_routine hroutine.acts] at hnow
      exact Nat.lt_irrefl 0 hnow
    refine ⟨hfinalized, ?_, ?_⟩
    · by_contra hend
      rcases hroutine.ended (by simpa using hend) with hold | hnew
      · rw [hdone] at hold
        cases hold
      · rw [hfinalized] at hnew
        cases hnew
    · intro r hr
      rcases List.mem_append.mp hr with hnew | hold
      · exact hroutine.resume r (by simpa using hnew)
      · exact hpending r hold
  · intro hended
    rcases hclosing (by simpa using hended) with hbefore | hnow | ⟨r, hr, hroutine⟩ |
      ⟨r, hr, hroutine⟩
    · exact .inl (Record.finalized_mono hbooks hbefore)
    · exact .inl hnow
    · exact .inr ⟨r, List.mem_append_left _ (by simpa using hr), hroutine⟩
    · exact .inr ⟨r, List.mem_append_right _ hr, hroutine⟩

end Unspoiled

namespace Record

variable {pending : List (Resume α ε)} {calls : List (OpenCall α ε)} {deeds : List (Deed α ε)}
  {call : OpenCall α ε} (L : Listener σ α ε)

/-- The tap is called. -/
theorem serve (self : Handle) (conditional : Bool) (input : Input α ε)
    (h : Record t pending calls deeds) :
    (t.serve L self conditional input).Books t ⟨input, []⟩ ∧
      Record (t.serve L self conditional input).tap
        ((t.serve L self conditional input).next.resume?.toList ++ pending)
        (callsAfter ⟨input, []⟩ calls (t.serve L self conditional input))
        (deeds ++ [.received input] ++ (t.serve L self conditional input).deeds) := by
  have hbooks := serve_books L self conditional input h.shut
  have hkeeps := serve_keeps (t := t) L self conditional input
  have hsource : t.source.isSome = true →
      (t.serve L self conditional input).tap.source.isSome = true := by
    intro hsome
    obtain ⟨first, hfirst⟩ := Option.isSome_iff_exists.mp hsome
    rw [(serve_settled L self conditional input hfirst).source]
    exact hsome
  have hreceived : endings (deeds ++ [.received input]) = endings deeds := by
    simp [endings, Deed.ending?]
  refine ⟨hbooks, fits_after h.fits hbooks hsource, hbooks.shut h.shut,
    once_after (hreceived ▸ h.once) hbooks, fun hnone => ?_⟩
  have hbefore : failures deeds = [] ∧
      failures (t.serve L self conditional input).deeds = [] := by
    simpa [failures] using hnone
  obtain ⟨hran, hclean, hfresh, hclosing⟩ := h.unspoiled hbefore.1
  refine Unspoiled.take (hreceived ▸ hran) (fun hopen => ⟨?_, hclean hopen⟩) hbooks hkeeps hbefore.2
    ?_ ?_
  · simp [Outlook.of_eq_settled, hopen]
  · intro hended
    simp only [ended_append, Bool.or_eq_false_iff] at hended
    obtain ⟨hopen, hdone, hpending⟩ := hfresh hended.1
    refine ⟨hopen, hdone, serve_routine L self conditional ?_, hpending⟩
    simpa [ended, Deed.isEnd] using hended.2
  · intro hended
    cases hearlier : ended deeds with
    | true =>
        rcases hclosing hearlier with hfinalized | hopen
        · exact .inl hfinalized
        · exact .inr (.inr (.inr hopen))
    | false =>
        have hinput : input.isEnd = true := by
          rw [ended_append, hearlier, Bool.false_or] at hended
          simpa [ended, Deed.isEnd] using hended
        rcases serve_closing hinput (hfresh hearlier).2.1 hbefore.2 with hfinalized | hopen
        · exact .inr (.inl hfinalized)
        · exact .inr (.inr (.inl hopen))

/-- A call of the tap returns. -/
theorem resume {r : Resume α ε} (b : Bool) (h : Record t (r :: pending) (call :: calls) deeds) :
    (t.resume L r b).Books t call ∧
      Record (t.resume L r b).tap ((t.resume L r b).next.resume?.toList ++ pending)
        (callsAfter call calls (t.resume L r b)) (deeds ++ (t.resume L r b).deeds) := by
  obtain ⟨hfits, hrest⟩ := List.forall₂_cons.mp h.fits
  have hbooks := resume_books L b hfits
  have hkeeps := resume_keeps (t := t) L r b
  refine ⟨hbooks, fits_after hrest hbooks ?_, hbooks.shut h.shut, once_after h.once hbooks,
    fun hnone => ?_⟩
  · rw [(resume_settled (t := t) L r b).source]
    exact id
  have hbefore : failures deeds = [] ∧ failures (t.resume L r b).deeds = [] := by
    simpa using hnone
  obtain ⟨hran, hclean, hfresh, hclosing⟩ := h.unspoiled hbefore.1
  refine Unspoiled.take hran (fun hopen => ⟨?_, fun r' hr' => ?_⟩) hbooks hkeeps hbefore.2 ?_ ?_
  · have hfault := hclean hopen r List.mem_cons_self
    simp [Outlook.of_eq_settled, hopen, hfault]
  · exact hclean hopen r' (List.mem_cons_of_mem _ hr')
  · intro hended
    obtain ⟨hopen, hdone, hpending⟩ := hfresh hended
    exact ⟨hopen, hdone, resume_routine L b (hpending r List.mem_cons_self),
      fun r' hr' => hpending r' (List.mem_cons_of_mem _ hr')⟩
  · intro hended
    rcases hclosing hended with hfinalized | ⟨r', hr', hroutine⟩
    · exact .inl hfinalized
    · rcases List.mem_cons.mp hr' with rfl | hr'
      · exact .inr (.inl (resume_closing hroutine hbefore.2))
      · exact .inr (.inr (.inr ⟨r', hr', hroutine⟩))

end Record

/-! ## The handle of the source -/

/-- The handle that a deed brings. -/
def Deed.handle? : Deed α ε → Option Handle
  | .received (.signal (.subscribe h)) => some h
  | _ => none

/-- The first handle that the tap has received. -/
def firstHandle (deeds : List (Deed α ε)) : Option Handle := deeds.findSome? Deed.handle?

theorem firstHandle_append (first second : List (Deed α ε)) :
    firstHandle (first ++ second) = (firstHandle first).or (firstHandle second) :=
  List.findSome?_append

theorem firstHandle_turn_deeds (turn : Turn σ α ε) : firstHandle turn.deeds = none := by
  refine List.findSome?_eq_none_iff.mpr fun d hd => ?_
  cases d with
  | received input => exact absurd hd (Turn.received_not_mem input)
  | _ => rfl

theorem serve_source (L : Listener σ α ε) (self : Handle) (conditional : Bool)
    (input : Input α ε) : (t.serve L self conditional input).tap.source =
      t.source.or (firstHandle [.received input]) := by
  cases hsource : t.source with
  | some first =>
      rw [(serve_settled L self conditional input hsource).source]
      exact hsource
  | none =>
      by_cases hinput : ∃ h, input = .signal (.subscribe h)
      · obtain ⟨h, rfl⟩ := hinput
        have hgiven := onSubscribe_source (t := t) L self h
        obtain ⟨given, hsome⟩ := Option.ne_none_iff_exists'.mp hgiven
        rcases (onSubscribe_handing (t := t) L self h).source given hsome with hold | rfl
        · rw [hsource] at hold
          cases hold
        · exact hsome
      · have hnot : ∀ h, input ≠ .signal (.subscribe h) := fun h heq => hinput ⟨h, heq⟩
        rw [(serve_plain L self conditional hnot).source, hsource, Option.none_or]
        refine (List.findSome?_eq_none_iff.mpr fun d hd => ?_).symm
        rw [List.mem_singleton.mp hd]
        rcases input with (h | _ | _ | _ | _) | _
        case signal.subscribe => exact absurd rfl (hnot h)
        all_goals rfl

namespace Life

/-- A tap keeps the first handle that it gets. -/
theorem Lived.source_eq {Ls : Context → Listener σ α ε} {self : Handle} {conditional : Bool}
    {manners : Manners σ α ε} {l : Life σ α ε} (h : Lived Ls self conditional manners l) :
    l.tap.source = firstHandle l.deeds := by
  refine h.invariant (motive := fun l => l.tap.source = firstHandle l.deeds) ?_ ?_
  · rintro first ⟨⟨listener, context, htap⟩, -, hdeeds | hdeeds⟩ <;> rw [hdeeds, htap] <;> rfl
  · intro now next hnow hstep
    cases hstep with
    | @serve t pending deeds input ambient hmanners =>
        dsimp only [take] at hnow ⊢
        rw [serve_source, firstHandle_append, firstHandle_append, firstHandle_turn_deeds, hnow,
          Option.or_none]
    | @resume t r pending deeds ambient b =>
        dsimp only [take] at hnow ⊢
        rw [(resume_settled (t := t) (Ls ambient) r b).source, firstHandle_append,
          firstHandle_turn_deeds, hnow, Option.or_none]

end Life

/-- A call in which the last hook may run brings no handle. -/
theorem OpenCall.Ends.handle {handle : Option Handle} {call : OpenCall α ε} {ending : Ending}
    (h : call.Ends handle ending) : firstHandle [.received call.input] = none := by
  cases ending with
  | complete =>
      obtain rfl := h
      rfl
  | error =>
      obtain ⟨e, rfl⟩ := h
      rfl
  | cancel =>
      obtain rfl := h
      rfl

/-- A part of what can be seen of a turn, up to one of its acts. -/
theorem Turn.acts_of_split {act : Act α ε} {first later : List (Deed α ε)}
    (h : turn.deeds = first ++ .acted act :: later) :
    ∃ before after, turn.acts = before ++ act :: after ∧ first = before.map .acted := by
  have hnext : .acted act ∉ turn.next.deeds := by
    cases turn.next <;> simp [Next.deeds]
  unfold Turn.deeds at h
  generalize turn.acts = acts at h ⊢
  induction acts generalizing first with
  | nil => exact absurd (by rw [List.map_nil, List.nil_append] at h; simp [h]) hnext
  | cons act' acts ih =>
      cases first with
      | nil =>
          rw [List.map_cons, List.cons_append, List.nil_append, List.cons.injEq] at h
          obtain ⟨heq, -⟩ := h
          cases heq
          exact ⟨[], acts, rfl, rfl⟩
      | cons d first =>
          rw [List.map_cons, List.cons_append, List.cons_append, List.cons.injEq] at h
          obtain ⟨rfl, hrest⟩ := h
          obtain ⟨before, after, rfl, rfl⟩ := ih hrest
          exact ⟨act' :: before, after, rfl, rfl⟩

/-- The same if something comes before the turn that is not an act. -/
theorem Turn.acts_of_begun {act : Act α ε} {begun first later : List (Deed α ε)}
    (hbegun : ∀ act, .acted act ∉ begun) (h : begun ++ turn.deeds = first ++ .acted act :: later) :
    ∃ before after, turn.acts = before ++ act :: after ∧ first = begun ++ before.map .acted := by
  induction begun generalizing first with
  | nil => exact acts_of_split h
  | cons d begun ih =>
      cases first with
      | nil =>
          rw [List.cons_append, List.nil_append, List.cons.injEq] at h
          exact absurd (h.1 ▸ List.mem_cons_self) (hbegun act)
      | cons d' first =>
          rw [List.cons_append, List.cons_append, List.cons.injEq] at h
          obtain ⟨rfl, hrest⟩ := h
          obtain ⟨before, after, hacts, rfl⟩ :=
            ih (fun act hact => hbegun act (List.mem_cons_of_mem _ hact)) hrest
          exact ⟨before, after, hacts, rfl⟩

end Tap

end Wiretap

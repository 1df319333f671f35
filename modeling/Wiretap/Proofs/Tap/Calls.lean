import Wiretap.Proofs.Tap.Routine

/-!
# The call in which the last hook runs

A call to a tap is open until the tap returns, and calls nest. Of an open call it is known what the
tap has done for it so far. The last hook runs in the call that ended the subscription, and then
that call holds exactly what leads up to the last hook: the hook for the ending, the ending itself,
passed on to the receiver or back to the source, and the hook after it.
-/

namespace Wiretap

variable {K : Kinds} {σ α ε : Type}

namespace Tap

/-- Something that a tap does while it is called. -/
inductive Doing (α ε : Type)
  /-- It did something on its own. -/
  | act (a : Act α ε)
  /-- It sent its receiver a signal. -/
  | sent (s : Signal α (TapError ε))
  /-- It used a handle. -/
  | used (c : Control)

/-- A call to a tap that has not returned yet. -/
structure OpenCall (α ε : Type) where
  /-- What the tap was called with. -/
  input : Input α ε
  /-- What it has done since, in this call, oldest first. -/
  doings : List (Doing α ε)

namespace OpenCall

/-- The call after the tap has done more. -/
def did (call : OpenCall α ε) (more : List (Doing α ε)) : OpenCall α ε :=
  { call with doings := call.doings ++ more }

theorem did_nil (call : OpenCall α ε) : call.did [] = call := by simp [did]

theorem did_did (call : OpenCall α ε) (first second : List (Doing α ε)) :
    (call.did first).did second = call.did (first ++ second) := by simp [did]

/-- Is it a call in which the last hook may run with this ending? The handle is that of the source,
if the tap has received one. -/
def Ends (handle : Option Handle) (call : OpenCall α ε) : Ending → Prop
  | .complete => call = ⟨.signal .complete,
      [.act (.ran .complete none), .sent .complete, .act (.ran .afterComplete none)]⟩
  | .error => ∃ e, call = ⟨.signal (.error e),
      [.act (.ran (.error e) none), .sent (.error (.source e)), .act (.ran (.afterError e) none)]⟩
  | .cancel => call = ⟨.control .cancel,
      .act (.ran .cancel none) :: if handle.isSome then [.used .cancel] else []⟩

/-- Does the call fit a tap that will resume at this point? -/
def Fits (t : Tap σ) (call : OpenCall α ε) : Resume α ε → Prop
  | .passedComplete => call = ⟨.signal .complete, [.act (.ran .complete none), .sent .complete]⟩
  | .passedError e => call =
      ⟨.signal (.error e), [.act (.ran (.error e) none), .sent (.error (.source e))]⟩
  | .released => t.source.isSome = true ∧
      call = ⟨.control .cancel, [.act (.ran .cancel none), .used .cancel]⟩
  | _ => True

theorem fits_of_isRoutine {t : Tap σ} {call : OpenCall α ε} {r : Resume α ε}
    (hr : r.isRoutine = true) : call.Fits t r := by
  cases r with
  | passedError | passedComplete | released => cases hr
  | _ => trivial

/-- A tap keeps its handle, so its open calls go on fitting. -/
theorem Fits.of_source {t u : Tap σ} {call : OpenCall α ε} {r : Resume α ε} (h : call.Fits t r)
    (hsource : t.source.isSome = true → u.source.isSome = true) : call.Fits u r := by
  cases r with
  | released => exact ⟨hsource h.1, h.2⟩
  | _ => exact h

end OpenCall

/-- What a tap does by the end of a turn. -/
def Next.doings : Next α ε → List (Doing α ε)
  | .answer _ => []
  | .down s _ => [.sent s]
  | .up _ c _ => [.used c]

/-- What a tap does in a turn. -/
def Turn.doings (turn : Turn σ α ε) : List (Doing α ε) := turn.acts.map .act ++ turn.next.doings

/-- How often the last hook has been run. -/
def endings (deeds : List (Deed α ε)) : Nat := deeds.countP fun d => d.ending?.isSome

@[simp] theorem endings_nil : endings ([] : List (Deed α ε)) = 0 := rfl

@[simp] theorem endings_append (first second : List (Deed α ε)) :
    endings (first ++ second) = endings first + endings second := List.countP_append

theorem endings_cons (d : Deed α ε) (deeds : List (Deed α ε)) :
    endings (d :: deeds) = endings deeds + d.ending?.isSome.toNat := by
  cases h : d.ending? <;> simp [endings, h]

/-- A tap without a receiver has come to its end. -/
def Shut (t : Tap σ) : Prop := t.attached = false → t.done = true ∨ t.finalized = true

/-- A turn of the tap `t` in this call runs the last hook only where it belongs, settles it by that,
and leaves the call as the point where it will resume requires. -/
structure Turn.Books (t : Tap σ) (call : OpenCall α ε) (turn : Turn σ α ε) : Prop where
  ends : ∀ before ending failure after,
    turn.acts = before ++ .ran (.finally ending) failure :: after →
    (call.did (before.map .act)).Ends t.source ending
  once : endings turn.deeds + t.finalized.toNat ≤ turn.tap.finalized.toNat
  shut : t.Shut → turn.tap.Shut
  fits : ∀ r ∈ turn.next.resume?, (call.did turn.doings).Fits turn.tap r

namespace Turn

variable {turn : Turn σ α ε} {t u : Tap σ} {call : OpenCall α ε}

theorem ending_of_isRoutine {act : Act α ε} (h : act.isRoutine = true) :
    (.acted act : Deed α ε).ending? = none := by
  rcases act with ⟨hook, failure⟩ | _ | _ | _ | _ | _
  case ran => cases hook <;> first | rfl | cases h
  all_goals rfl

theorem endings_deeds_of_routine (h : ∀ act ∈ turn.acts, act.isRoutine = true) :
    endings turn.deeds = 0 := by
  refine List.countP_eq_zero.mpr fun d hd => ?_
  rcases List.mem_append.mp hd with hact | hnext
  · obtain ⟨act, hmem, rfl⟩ := List.mem_map.mp hact
    simp [ending_of_isRoutine (h act hmem)]
  · cases hturn : turn.next <;> simp [hturn, Next.deeds] at hnext <;> simp [hnext, Deed.ending?]

theorem ends_of_routine (h : ∀ act ∈ turn.acts, act.isRoutine = true)
    {before after : List (Act α ε)}
    {ending : Ending} {failure : Option Cause}
    (hacts : turn.acts = before ++ .ran (.finally ending) failure :: after) : False := by
  have hroutine := h (.ran (.finally ending) failure) (by rw [hacts]; simp)
  cases hroutine

theorem Routine.books (h : turn.Routine t) : turn.Books t call where
  ends := fun _ _ _ _ hacts => (ends_of_routine h.acts hacts).elim
  once := by
    rw [endings_deeds_of_routine h.acts, Nat.zero_add]
    cases hfinalized : t.finalized with
    | true => simp [h.finalized hfinalized]
    | false => exact Nat.zero_le _
  shut := by
    intro hshut hdetached
    rcases h.detached hdetached with hold | hfinalized
    · exact (hshut hold).imp h.done h.finalized
    · exact .inr hfinalized
  fits := fun r hr => OpenCall.fits_of_isRoutine (h.resume r hr)

namespace Books

/-- The flags may have been changed before the turn, if the last hook was not settled by that. -/
theorem of_flags (h : turn.Books u call) (hsource : u.source = t.source)
    (hfinalized : u.finalized = t.finalized) (hshut : t.Shut → u.Shut) : turn.Books t call where
  ends := hsource ▸ h.ends
  once := hfinalized ▸ h.once
  shut := fun ht => h.shut (hshut ht)
  fits := h.fits

/-- An act that is not the last hook. -/
theorem after {act : Act α ε} (h : turn.Books t (call.did [.act act]))
    (hact : (.acted act : Deed α ε).ending? = none) : (turn.after act).Books t call where
  ends := by
    intro before ending failure after hacts
    cases before with
    | nil =>
        obtain rfl : act = .ran (.finally ending) failure := by
          simpa using congrArg List.head? hacts
        cases hact
    | cons first before =>
        rw [acts_after, List.cons_append, List.cons.injEq] at hacts
        obtain ⟨rfl, hrest⟩ := hacts
        have hends := h.ends before ending failure after hrest
        rwa [OpenCall.did_did] at hends
  once := by
    rw [deeds_after, endings_cons, hact]
    exact h.once
  shut := h.shut
  fits := by
    intro r hr
    have hfits := h.fits r hr
    rwa [OpenCall.did_did] at hfits

/-- The last hook, and then nothing but routine. -/
theorem after_finally {ending : Ending} {failure : Option Cause}
    (hends : call.Ends t.source ending) (hopen : t.finalized = false) (h : turn.Routine u)
    (hu : u.finalized = true) : (turn.after (.ran (.finally ending) failure)).Books t call where
  ends := by
    intro before ending' failure' after hsplit
    cases before with
    | nil =>
        rw [acts_after, List.nil_append, List.cons.injEq] at hsplit
        obtain ⟨heq, -⟩ := hsplit
        cases heq
        rwa [List.map_nil, OpenCall.did_nil]
    | cons first before =>
        rw [acts_after, List.cons_append, List.cons.injEq] at hsplit
        exact (ends_of_routine h.acts hsplit.2).elim
  once := by
    rw [deeds_after, endings_cons, endings_deeds_of_routine h.acts, hopen, tap_after,
      h.finalized hu]
    exact Nat.le_refl 1
  shut := fun _ _ => .inr (h.finalized hu)
  fits := fun r hr => OpenCall.fits_of_isRoutine (h.resume r hr)

end Books

end Turn

variable {t : Tap σ} {call : OpenCall α ε} (L : Listener σ α ε)

theorem runHook_books {u : Tap σ} {h : Hook α ε} {ok : Tap σ → Turn σ α ε}
    {failed : Tap σ → Fault → Turn σ α ε} (hhook : h.ending? = none)
    (hok : ∀ listener,
      (ok { u with listener := listener }).Books t (call.did [.act (.ran h none)]))
    (hfailed : ∀ listener f call, (failed { u with listener := listener } f).Books t call) :
    (u.runHook L h ok failed).Books t call := by
  unfold runHook
  rcases L.run u.listener h with ⟨listener, _ | cause⟩
  · exact (hok listener).after hhook
  · exact (hfailed listener _ _).after hhook

/-- Unless it is settled, the last hook runs, and after it there is nothing but routine. -/
theorem runFinally_books {ending : Ending} {ok : Tap σ → Turn σ α ε}
    {failed : Tap σ → Fault → Turn σ α ε}
    (hcall : t.finalized = false → call.Ends t.source ending)
    (hsettled : t.finalized = true → (ok t).Books t call)
    (hok : ∀ listener, ∃ u : Tap σ, u.finalized = true ∧
      (ok { t with listener := listener, finalized := true }).Routine u)
    (hfailed : ∀ listener f,
      (failed { t with listener := listener, finalized := true } f).Routine
        { t with listener := listener, finalized := true }) :
    (t.runFinally L ending ok failed).Books t call := by
  unfold runFinally
  split
  next hfinalized => exact hsettled hfinalized
  next hfinalized =>
    have hopen : t.finalized = false := by simpa using hfinalized
    unfold runHook
    rcases L.run t.listener (.finally ending) with ⟨listener, _ | cause⟩
    · obtain ⟨u, hu, hroutine⟩ := hok listener
      exact .after_finally (hcall hopen) hopen hroutine hu
    · exact .after_finally (hcall hopen) hopen (hfailed listener _) rfl

theorem released_books (hcall : call.Ends t.source .cancel) : (t.released L).Books t call := by
  refine runFinally_books L (fun _ => hcall) (fun hfinalized => ?_) (fun listener => ?_)
    fun listener f => fail_routine L f
  · exact (finish_routine (t := { t with attached := false })).books.of_flags rfl rfl
      fun _ _ => .inr hfinalized
  · exact ⟨{ t with listener, attached := false, finalized := true }, rfl, finish_routine⟩

theorem wrapUp_books {h : Hook α ε} {ending : Ending} (hhook : h.ending? = none)
    (hcall : t.finalized = false → (call.did [.act (.ran h none)]).Ends t.source ending) :
    (t.wrapUp L h ending).Books t call := by
  have hdropped : ∀ (u : Tap σ) f, (u.dropFault L f finish : Turn σ α ε).Routine u :=
    fun u f => dropFault_routine L fun _ => finish_routine.of_listener
  unfold wrapUp
  refine runHook_books L hhook (fun listener => ?_)
    fun listener f call => (hdropped _ f).of_listener.books
  refine (runFinally_books (t := { t with listener := listener }) L hcall
    (fun _ => finish_routine.books) (fun listener' => ?_)
    fun listener' f => hdropped _ f).of_flags rfl rfl id
  exact ⟨{ t with listener := listener', finalized := true }, rfl, finish_routine⟩

theorem onError_books (e : ε) (hshut : t.Shut) :
    (t.onError L e).Books t ⟨.signal (.error e), []⟩ := by
  cases hdone : t.done with
  | true => exact (malformedError_routine L e hdone).books
  | false =>
      unfold onError
      rw [if_neg (by simp [hdone])]
      refine runHook_books L rfl (fun listener => ?_) fun listener f call => ?_
      · dsimp only
        split
        · exact {
            ends := by simp [Tap.down]
            once := by simp [Tap.down, Turn.deeds, Next.deeds, endings, Deed.ending?]
            shut := fun _ _ => .inl rfl
            fits := by
              intro r hr
              obtain rfl : r = .passedError e := by simpa [Tap.down, Next.resume?] using hr.symm
              rfl }
        next hdetached =>
          -- The receiver has gone before the end, so the last hook is settled.
          have hfinalized : t.finalized = true := by
            simpa [hdone] using hshut (by simpa using hdetached)
          refine Turn.Books.after ?_ rfl
          refine (wrapUp_books (t := { t with listener, attached := false, done := true }) L rfl
            fun hopen => ?_).of_flags rfl rfl fun _ _ => .inl rfl
          rw [hfinalized] at hopen
          cases hopen
      · have hcancel := cancelSource_routine (t := { t with listener, done := true })
          (r := .spoiled f e) rfl (spoiled_routine L f e)
        exact hcancel.books.of_flags rfl rfl fun _ _ => .inl rfl

theorem onComplete_books (hshut : t.Shut) : (t.onComplete L).Books t ⟨.signal .complete, []⟩ := by
  cases hdone : t.done with
  | true => exact (malformedComplete_routine L hdone).books
  | false =>
      unfold onComplete
      rw [if_neg (by simp [hdone])]
      refine runHook_books L rfl (fun listener => ?_) fun listener f call => ?_
      · dsimp only
        split
        · exact {
            ends := by simp [Tap.down]
            once := by simp [Tap.down, Turn.deeds, Next.deeds, endings, Deed.ending?]
            shut := fun _ _ => .inl rfl
            fits := by
              intro r hr
              obtain rfl : r = .passedComplete := by simpa [Tap.down, Next.resume?] using hr.symm
              rfl }
        next hdetached =>
          have hfinalized : t.finalized = true := by
            simpa [hdone] using hshut (by simpa using hdetached)
          refine (wrapUp_books (t := { t with listener, attached := false, done := true }) L rfl
            fun hopen => ?_).of_flags rfl rfl fun _ _ => .inl rfl
          rw [hfinalized] at hopen
          cases hopen
      · exact (fail_routine (t := { t with listener, done := true }) L f).books.of_flags rfl rfl
          fun _ _ => .inl rfl

theorem onCancel_books : (t.onCancel L).Books t ⟨.control .cancel, []⟩ := by
  refine runHook_books L rfl (fun listener => ?_)
    fun listener f call => (failed_routine L f).of_listener.books
  unfold cancelSource
  split
  next h hsource =>
    exact {
      ends := by simp
      once := by simp [Turn.deeds, Next.deeds]
      shut := id
      fits := by
        intro r hr
        obtain rfl : r = .released := by simpa [Next.resume?] using hr.symm
        have hhandle : t.source = some h := hsource
        simp [OpenCall.Fits, OpenCall.did, Turn.doings, Next.doings, hhandle] }
  next hsource =>
    have hhandle : t.source = none := hsource
    refine (released_books (t := { t with listener := listener }) L ?_).of_flags rfl rfl id
    simp [OpenCall.Ends, OpenCall.did, hhandle]

/-- A call to a tap. -/
theorem serve_books (self : Handle) (conditional : Bool) (input : Input α ε) (hshut : t.Shut) :
    (t.serve L self conditional input).Books t ⟨input, []⟩ := by
  cases hinput : input.isEnd with
  | false => exact (serve_routine L self conditional hinput).books
  | true =>
      rcases input with (h | x | x | e | _) | (n | _)
      case signal.error => exact onError_books L e hshut
      case signal.complete => exact onComplete_books L hshut
      case control.cancel => exact onCancel_books L
      all_goals cases hinput

/-- The return to a tap in an open call. -/
theorem resume_books {r : Resume α ε} (b : Bool) (hcall : call.Fits t r) :
    (t.resume L r b).Books t call := by
  cases hr : r.isRoutine with
  | true => exact (resume_routine L b hr).books
  | false =>
      cases r with
      | passedError e =>
          obtain rfl := hcall
          exact wrapUp_books L rfl fun _ => ⟨e, rfl⟩
      | passedComplete =>
          obtain rfl := hcall
          exact wrapUp_books L rfl fun _ => rfl
      | released =>
          obtain ⟨hsource, rfl⟩ := hcall
          exact released_books L (by simp [OpenCall.Ends, hsource])
      | _ => cases hr

end Tap

end Wiretap

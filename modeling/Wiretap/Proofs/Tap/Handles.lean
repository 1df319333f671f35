import Wiretap.Proofs.Tap.Record

/-!
# The handles of a tap

Handles may come to a tap at any moment of its life. The first one is kept, even if the hook for it
fails, and it is the one that the tap uses for all it has to ask of its source. Of a handle that
comes later nothing is kept: the tap cancels it and returns.
-/

namespace Wiretap.Tap

variable {K : Kinds} {σ α ε : Type}

/-- The handles that a tap has been given, in order. -/
def handles (deeds : List (Deed α ε)) : List Handle := deeds.filterMap Deed.handle?

@[simp] theorem handles_append (first second : List (Deed α ε)) :
    handles (first ++ second) = handles first ++ handles second := List.filterMap_append

theorem handles_turn_deeds (turn : Turn σ α ε) : handles turn.deeds = [] := by
  refine List.filterMap_eq_nil_iff.mpr fun d hd => ?_
  cases d with
  | received input => exact absurd hd (Turn.received_not_mem input)
  | _ => rfl

theorem head?_handles (deeds : List (Deed α ε)) : (handles deeds).head? = firstHandle deeds :=
  List.head?_filterMap

/-- Is it the hook for a handle that was run? -/
def Deed.opens : Deed α ε → Bool
  | .acted act => act.opens
  | _ => false

/-- How often the hook for a handle has been run. -/
def openings (deeds : List (Deed α ε)) : Nat := deeds.countP Deed.opens

@[simp] theorem openings_append (first second : List (Deed α ε)) :
    openings (first ++ second) = openings first + openings second := List.countP_append

theorem openings_turn_deeds (turn : Turn σ α ε) :
    openings turn.deeds = turn.acts.countP Act.opens := by
  have hnext : openings turn.next.deeds = 0 := by cases turn.next <;> rfl
  rw [Turn.deeds, openings_append, hnext, Nat.add_zero, openings, List.countP_map]
  rfl

theorem Turn.Settled.openings {t : Tap σ} {turn : Turn σ α ε} (h : turn.Settled t) :
    openings turn.deeds = 0 := by
  rw [openings_turn_deeds]
  exact List.countP_eq_zero.mpr fun act hact => by simp [h.hooks act hact]

/-- What a tap asks of a handle at the end of a turn. -/
def Next.usage : Next α ε → List (Handle × Control)
  | .up h c _ => [(h, c)]
  | _ => []

variable (L : Listener σ α ε) {Ls : Context → Listener σ α ε} {t : Tap σ}

/-! ## One turn -/

/-- A handle that is not the first one is cancelled, and the tap is as before. -/
theorem serve_late (self : Handle) (conditional : Bool) {first : Handle}
    (hsource : t.source = some first) (h : Handle) :
    t.serve L self conditional (.signal (.subscribe h)) = ⟨[], t, .up h .cancel .ignored⟩ := by
  simp only [serve, receive, onSubscribe, hsource]

theorem onSubscribe_openings (self h : Handle) :
    openings (t.onSubscribe L self h : Turn σ α ε).deeds ≤ 1 := by
  rw [openings_turn_deeds]
  unfold onSubscribe
  cases t.source with
  | some first => exact Nat.zero_le 1
  | none =>
      unfold runHook
      rcases L.run t.listener .subscription with ⟨listener, _ | cause⟩
      · cases t.attached <;> exact Nat.le_refl 1
      · exact Nat.le_refl 1

/-- The hook for a handle is run only in a call that brings the first one, and once. -/
theorem serve_openings (self : Handle) (conditional : Bool) (input : Input α ε) :
    t.source.isSome.toNat + openings (t.serve L self conditional input).deeds ≤
      (t.serve L self conditional input).tap.source.isSome.toNat := by
  cases hsource : t.source with
  | some first =>
      have hsettled := serve_settled L self conditional input hsource
      rw [hsettled.openings, hsettled.source, hsource]
      exact Nat.le_refl 1
  | none =>
      by_cases hinput : ∃ h, input = .signal (.subscribe h)
      · obtain ⟨h, rfl⟩ := hinput
        obtain ⟨given, hgiven⟩ :=
          Option.ne_none_iff_exists'.mp (onSubscribe_source (t := t) L self h)
        have honce := onSubscribe_openings (t := t) L self h
        simp only [serve, receive, hgiven]
        simpa using honce
      · have hplain := serve_plain (t := t) L self conditional fun h heq => hinput ⟨h, heq⟩
        rw [hplain.settled.openings]
        exact Nat.zero_le _

/-- A tap without a handle uses none but the one that it has just been given. -/
theorem serve_usage_first (self : Handle) (conditional : Bool) (input : Input α ε)
    (hsource : t.source = none) {u : Handle × Control}
    (hu : u ∈ (t.serve L self conditional input).next.usage) :
    input = .signal (.subscribe u.1) := by
  have hgiven := serve_handing (t := t) L self conditional input
  cases hnext : (t.serve L self conditional input).next with
  | up h c r =>
      rw [hnext] at hu
      obtain rfl := List.mem_singleton.mp hu
      rcases (hgiven.up h c r hnext).2 with hold | hnew
      · rw [hsource] at hold
        cases hold
      · exact hnew
  | _ =>
      rw [hnext] at hu
      cases hu

/-- Unless it is given a handle, a tap uses the one that it has. -/
theorem serve_usage (self : Handle) (conditional : Bool) {input : Input α ε}
    (hinput : ∀ h, input ≠ .signal (.subscribe h)) {u : Handle × Control}
    (hu : u ∈ (t.serve L self conditional input).next.usage) : t.source = some u.1 := by
  have hplain := serve_plain (t := t) L self conditional hinput
  cases hnext : (t.serve L self conditional input).next with
  | up h c r =>
      rw [hnext] at hu
      obtain rfl := List.mem_singleton.mp hu
      exact (hplain.up h c r hnext).1
  | _ =>
      rw [hnext] at hu
      cases hu

theorem resume_usage (r : Resume α ε) (b : Bool) {u : Handle × Control}
    (hu : u ∈ (t.resume L r b).next.usage) : t.source = some u.1 := by
  have hgiven := resume_handing (t := t) L .empty r b
  cases hnext : (t.resume L r b).next with
  | up h c r' =>
      rw [hnext] at hu
      obtain rfl := List.mem_singleton.mp hu
      exact (hgiven.up h c r' hnext).2.resolve_right id
  | _ =>
      rw [hnext] at hu
      cases hu

/-! ## All turns -/

/-- Somebody who has been given these handles, in order, may have made these uses of them if the
first one is the only one that counts. -/
inductive Loyal : List Handle → List (Handle × Control) → Prop
  /-- There is no handle yet. -/
  | nil : Loyal [] []
  /-- The first one comes. -/
  | first (h : Handle) : Loyal [h] []
  /-- It is used. -/
  | keep {h : Handle} {later : List Handle} {uses : List (Handle × Control)} (c : Control)
    (hbefore : Loyal (h :: later) uses) : Loyal (h :: later) (uses ++ [(h, c)])
  /-- Another one comes, and is cancelled. -/
  | late {h : Handle} {later : List Handle} {uses : List (Handle × Control)} (extra : Handle)
    (hbefore : Loyal (h :: later) uses) :
    Loyal (h :: later ++ [extra]) (uses ++ [(extra, .cancel)])

namespace Loyal

variable {given : List Handle} {uses : List (Handle × Control)}

theorem eq_nil (h : Loyal [] uses) : uses = [] := by
  cases h
  rfl

/-- Whoever uses the first handle, or none, may go on. -/
theorem use (h : Loyal given uses) {next : Next α ε}
    (hfirst : ∀ u ∈ next.usage, given.head? = some u.1) : Loyal given (uses ++ next.usage) := by
  cases next with
  | up handle c r =>
      have hhead : given.head? = some handle := hfirst _ List.mem_cons_self
      cases given with
      | nil => cases hhead
      | cons first later =>
          obtain rfl := Option.some.inj hhead
          exact h.keep c
  | _ => exact (List.append_nil uses).symm ▸ h

/-- The tap is called. -/
theorem serve (h : Loyal given uses) (hsource : t.source = given.head?) (self : Handle)
    (conditional : Bool) (input : Input α ε) :
    Loyal (given ++ handles [.received input])
      (uses ++ (t.serve L self conditional input).next.usage) := by
  by_cases hinput : ∃ extra, input = .signal (.subscribe extra)
  · obtain ⟨extra, rfl⟩ := hinput
    cases given with
    | nil =>
        -- The first handle is used in the same call if the hook for it fails.
        rw [h.eq_nil]
        refine (Loyal.first extra).use fun u hu => ?_
        cases serve_usage_first L self conditional _ hsource hu
        rfl
    | cons first later =>
        rw [serve_late L self conditional hsource extra]
        exact h.late extra
  · have hnot : ∀ extra, input ≠ .signal (.subscribe extra) := fun extra heq => hinput ⟨extra, heq⟩
    have hnone : handles [.received input] = [] := by
      rcases input with (extra | _ | _ | _ | _) | _
      case signal.subscribe => exact absurd rfl (hnot extra)
      all_goals rfl
    rw [hnone, List.append_nil]
    exact h.use fun u hu => hsource.symm.trans (serve_usage L self conditional hnot hu)

/-- The tap goes on. -/
theorem resume (h : Loyal given uses) (hsource : t.source = given.head?) (r : Resume α ε)
    (b : Bool) : Loyal given (uses ++ (t.resume L r b).next.usage) :=
  h.use fun _ hu => hsource.symm.trans (resume_usage L r b hu)

/-- A handle that is not the first one is used only to cancel it. -/
theorem cases_of_mem (h : Loyal given uses) {u : Handle × Control} (hu : u ∈ uses) :
    given.head? = some u.1 ∨ u.1 ∈ given.tail ∧ u.2 = .cancel := by
  induction h with
  | nil => cases hu
  | first handle => cases hu
  | keep c hbefore ih =>
      rcases List.mem_append.mp hu with hu | hu
      · exact ih hu
      · obtain rfl := List.mem_singleton.mp hu
        exact .inl rfl
  | late extra hbefore ih =>
      rcases List.mem_append.mp hu with hu | hu
      · exact (ih hu).imp_right (And.imp_left (List.mem_append_left _))
      · obtain rfl := List.mem_singleton.mp hu
        exact .inr ⟨List.mem_append_right _ List.mem_cons_self, rfl⟩

theorem given_of_mem (h : Loyal given uses) {u : Handle × Control} (hu : u ∈ uses) :
    u.1 ∈ given := by
  rcases h.cases_of_mem hu with hhead | ⟨htail, -⟩
  · exact List.mem_of_mem_head? hhead
  · exact List.mem_of_mem_tail htail

/-- If the handles are distinct, each later one is used once. -/
theorem once (h : Loyal given uses) (hdistinct : given.Nodup) {extra : Handle}
    (hextra : extra ∈ given.tail) : uses.filter (·.1 = extra) = [(extra, .cancel)] := by
  induction h with
  | nil => cases hextra
  | first handle => cases hextra
  | @keep first later uses c hbefore ih =>
      have hne : first ≠ extra := fun heq => (List.nodup_cons.mp hdistinct).1 (heq ▸ hextra)
      rw [List.filter_append, ih hdistinct hextra]
      simp [hne]
  | @late first later uses last hbefore ih =>
      -- The handle that has just come is none of those before it, which alone have been used.
      obtain ⟨hold, -, hnew⟩ := List.nodup_append.mp hdistinct
      have hlast : last ∉ first :: later := fun hmem => hnew last hmem last List.mem_cons_self rfl
      rw [List.filter_append]
      rcases List.mem_append.mp hextra with hlater | hextra
      · have hne : last ≠ extra := fun heq => hlast (heq ▸ List.mem_cons_of_mem _ hlater)
        rw [ih hold hlater]
        simp [hne]
      · obtain rfl := List.mem_singleton.mp hextra
        have hunused : uses.filter (·.1 = extra) = [] := by
          refine List.filter_eq_nil_iff.mpr fun u hu heq => hlast ?_
          exact of_decide_eq_true heq ▸ hbefore.given_of_mem hu
        rw [hunused]
        simp

end Loyal

/-- In every life the hook for a handle is run once at most. -/
theorem Life.Lived.opens_once {self : Handle} {conditional : Bool} {manners : Manners σ α ε}
    {l : Life σ α ε} (h : Lived Ls self conditional manners l) : openings l.deeds ≤ 1 := by
  suffices hopened : openings l.deeds ≤ l.tap.source.isSome.toNat from
    Nat.le_trans hopened (Bool.toNat_le _)
  refine h.invariant (motive := fun l => openings l.deeds ≤ l.tap.source.isSome.toNat) ?_ ?_
  · rintro first ⟨-, -, hdeeds | hdeeds⟩ <;> rw [hdeeds] <;> exact Nat.zero_le _
  · intro now next hnow hstep
    cases hstep with
    | @serve t pending deeds input ambient hmanners =>
        have hserve := serve_openings (t := t) (Ls ambient) self conditional input
        have hreceived : openings [(.received input : Deed α ε)] = 0 := rfl
        dsimp only [take] at hnow ⊢
        rw [openings_append, openings_append, hreceived]
        omega
    | @resume t r pending deeds ambient b =>
        have hsettled := resume_settled (t := t) (Ls ambient) r b
        dsimp only [take] at hnow ⊢
        rw [openings_append, hsettled.openings, hsettled.source]
        exact hnow

end Wiretap.Tap

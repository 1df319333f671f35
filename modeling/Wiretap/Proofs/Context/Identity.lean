import Mathlib.Logic.Relation
import Wiretap.Context.Snapshot
import Wiretap.Proofs.Context.Laws
import Wiretap.Scenario.Kinds

/-!
# The identity of snapshots

An identity is given away once, to a snapshot that is made then. An operation that has nothing to do
gives a snapshot back that it was given, and it can be told from the entries alone when it does so
and which one it gives back. Along a whole script this settles which snapshots are the very same:
those that operations with nothing to do have handed on, directly or through others. Whoever finds
two snapshots to be the very same can therefore rely on their entries.
-/

namespace Wiretap.Context

section

variable {K : Kinds} {a b s : Snapshot} {c : Context} {key : String} {e : Edit} {o : Operation}
  {r u : Record} {snapshots : List Snapshot} {script before after : List Operation}
  {i j n : Nat}

namespace Snapshot

theorem same_iff : a.same b = true ↔ a.id = b.id := beq_iff_eq

/-- What snapshots hold. -/
def contexts (snapshots : List Snapshot) : List Context := snapshots.map (·.context)

theorem contexts_getElem? (h : snapshots[i]? = some a) :
    (contexts snapshots)[i]? = some a.context := by
  rw [contexts, List.getElem?_map, h]
  rfl

theorem exists_of_contexts (h : (contexts snapshots)[i]? = some c) :
    ∃ a, snapshots[i]? = some a ∧ a.context = c := by
  rw [contexts, List.getElem?_map] at h
  exact Option.map_eq_some_iff.mp h

/-! ## Early ways out -/

theorem erase_eq_self (h : key ∉ a.context.keys) : a.erase key n = a :=
  if_neg fun hkey => h (contains_iff.mp hkey)

theorem id_erase (h : key ∈ a.context.keys) : (a.erase key n).id = n := by
  rw [erase, if_pos (contains_iff.mpr h)]

theorem merge_eq_left (h : b.context.keys = []) : a.merge b n = a :=
  if_pos (isEmpty_iff.mpr h)

theorem merge_eq_right (hb : b.context.keys ≠ []) (ha : a.context.keys = []) :
    a.merge b n = b := by
  rw [merge, if_neg fun h => hb (isEmpty_iff.mp h), if_pos (isEmpty_iff.mpr ha)]

theorem id_merge (hb : b.context.keys ≠ []) (ha : a.context.keys ≠ []) :
    (a.merge b n).id = n := by
  rw [merge, if_neg fun h => hb (isEmpty_iff.mp h), if_neg fun h => ha (isEmpty_iff.mp h)]

/-! ## What an operation makes of the entries -/

theorem context_erase : (a.erase key n).context = a.context.erase key := by
  unfold erase Context.erase
  split <;> rfl

theorem context_merge : (a.merge b n).context = a.context.merge b.context := by
  unfold merge Context.merge
  split
  next => rfl
  next => split <;> rfl

theorem context_edit : (a.edit n e).context = a.context.edit e := by
  cases e with
  | erase key => exact context_erase
  | merge other => exact context_merge
  | insert key value => rfl
  | restrict keys => rfl
  | clear => rfl

end Snapshot

namespace Operation

/-- The positions that an operation names. -/
def operands : Operation → List Nat
  | .edit on _ => [on]
  | .merge on other => [on, other]
  | .singleton _ _ => []
  | .empty => []

/-- What an operation gives when snapshots are nothing but their entries. -/
def context? (contexts : List Context) : Operation → Option Context
  | .edit on e => (contexts[on]?).map (·.edit e)
  | .merge on other => do
      let c ← contexts[on]?
      let d ← contexts[other]?
      return c.merge d
  | .singleton key value => some (.singleton key value)
  | .empty => some .empty

/-- Does an operation make a new snapshot whatever it finds? Only taking out and merging may have
nothing to do. -/
def isAlwaysNew : Operation → Bool
  | .edit _ (.erase _) => false
  | .edit _ (.merge _) => false
  | .merge _ _ => false
  | _ => true

/-- An operation has nothing to do, and gives back what is at a position. A context that comes with
a merge is at no position: it is new even where it comes back as it is. -/
inductive GivesBack (contexts : List Context) : Operation → Nat → Prop
  /-- The key to be taken out is absent. -/
  | absent {on : Nat} {c : Context} {key : String} (hon : contexts[on]? = some c)
    (habsent : key ∉ c.keys) : GivesBack contexts (.edit on (.erase key)) on
  /-- An empty context is to be merged in. -/
  | nothing {on : Nat} {c other : Context} (hon : contexts[on]? = some c)
    (hother : other.keys = []) : GivesBack contexts (.edit on (.merge other)) on
  /-- The second of two snapshots is empty: the first one comes back, empty or not. -/
  | first {on other : Nat} {c d : Context} (hon : contexts[on]? = some c)
    (hother : contexts[other]? = some d) (hempty : d.keys = []) :
    GivesBack contexts (.merge on other) on
  /-- Only the first of two snapshots is empty: the second one comes back. -/
  | second {on other : Nat} {c d : Context} (hon : contexts[on]? = some c)
    (hother : contexts[other]? = some d) (hsome : d.keys ≠ []) (hempty : c.keys = []) :
    GivesBack contexts (.merge on other) other

/-- What the identity of a snapshot tells about the operation that has given it. -/
structure Tells (o : Operation) (earlier : List Snapshot) (s : Snapshot) : Prop where
  /-- The entries are those that the operation gives on contexts. -/
  holds : o.context? (Snapshot.contexts earlier) = some s.context
  /-- Putting, restricting and starting anew give what is the very same as nothing before. -/
  isNew : o.isAlwaysNew = true → ∀ b ∈ earlier, s.same b = false
  /-- It is the very same as one from before just if there was an early way out. -/
  known_iff : (∃ b ∈ earlier, s.same b = true) ↔
    ∃ i, o.GivesBack (Snapshot.contexts earlier) i
  /-- Then it is the very same as just those snapshots that share the identity of the operand that
  was given back. -/
  shares (i : Nat) : o.GivesBack (Snapshot.contexts earlier) i →
    ∃ a, earlier[i]? = some a ∧ ∀ b, s.same b = a.same b

theorem GivesBack.not_isAlwaysNew {contexts : List Context} (h : o.GivesBack contexts i) :
    o.isAlwaysNew = false := by
  cases h <;> rfl

theorem GivesBack.lt_length {contexts : List Context} (h : o.GivesBack contexts i) :
    i < contexts.length := by
  cases h with
  | absent hon _ => exact (List.getElem?_eq_some_iff.mp hon).1
  | nothing hon _ => exact (List.getElem?_eq_some_iff.mp hon).1
  | first hon _ _ => exact (List.getElem?_eq_some_iff.mp hon).1
  | second _ hother _ _ => exact (List.getElem?_eq_some_iff.mp hother).1

end Operation

namespace Record

/-! ## One operation -/

theorem result?_of_givesBack (h : o.GivesBack (Snapshot.contexts r.snapshots) i) :
    r.result? o = r.snapshots[i]? := by
  cases h with
  | absent hon habsent =>
      obtain ⟨a, ha, rfl⟩ := Snapshot.exists_of_contexts hon
      rw [result?, ha, Option.map_some, Snapshot.edit, Snapshot.erase_eq_self habsent]
  | nothing hon hother =>
      obtain ⟨a, ha, rfl⟩ := Snapshot.exists_of_contexts hon
      rw [result?, ha, Option.map_some, Snapshot.edit, Snapshot.merge_eq_left hother]
  | first hon hother hempty =>
      obtain ⟨a, ha, rfl⟩ := Snapshot.exists_of_contexts hon
      obtain ⟨b, hb, rfl⟩ := Snapshot.exists_of_contexts hother
      rw [result?, ha, hb]
      exact congrArg some (Snapshot.merge_eq_left hempty)
  | second hon hother hsome hempty =>
      obtain ⟨a, ha, rfl⟩ := Snapshot.exists_of_contexts hon
      obtain ⟨b, hb, rfl⟩ := Snapshot.exists_of_contexts hother
      rw [result?, ha, hb]
      exact congrArg some (Snapshot.merge_eq_right hsome hempty)

theorem result?_merge {on other : Nat} (h : r.result? (.merge on other) = some s) :
    ∃ a b, r.snapshots[on]? = some a ∧ r.snapshots[other]? = some b ∧ s = a.merge b r.fresh := by
  obtain ⟨a, ha, h⟩ := Option.bind_eq_some_iff.mp h
  obtain ⟨b, hb, h⟩ := Option.bind_eq_some_iff.mp h
  exact ⟨a, b, ha, hb, (Option.some.inj h).symm⟩

/-- Without an early way out there is a new identity. -/
theorem id_of_result? (h : r.result? o = some s)
    (hnew : ∀ i, ¬ o.GivesBack (Snapshot.contexts r.snapshots) i) : s.id = r.fresh := by
  cases o with
  | edit on e =>
      obtain ⟨a, ha, rfl⟩ := Option.map_eq_some_iff.mp h
      have hon := Snapshot.contexts_getElem? ha
      cases e with
      | erase key =>
          have hkey : key ∈ a.context.keys := by
            by_contra habsent
            exact hnew on (.absent hon habsent)
          exact Snapshot.id_erase hkey
      | merge other =>
          have hother : other.keys ≠ [] := fun hempty => hnew on (.nothing hon hempty)
          -- The context that is merged in has the new identity already.
          by_cases hempty : a.context.keys = []
          · exact congrArg Snapshot.id (Snapshot.merge_eq_right hother hempty)
          · exact Snapshot.id_merge hother hempty
      | insert key value => rfl
      | restrict keys => rfl
      | clear => rfl
  | merge on other =>
      obtain ⟨a, b, ha, hb, rfl⟩ := result?_merge h
      have hon := Snapshot.contexts_getElem? ha
      have hother := Snapshot.contexts_getElem? hb
      have hsecond : b.context.keys ≠ [] := fun hempty => hnew on (.first hon hother hempty)
      have hfirst : a.context.keys ≠ [] := fun hempty =>
        hnew other (.second hon hother hsecond hempty)
      exact Snapshot.id_merge hsecond hfirst
  | singleton key value => exact congrArg Snapshot.id (Option.some.inj h).symm
  | empty => exact congrArg Snapshot.id (Option.some.inj h).symm

theorem context_of_result? (h : r.result? o = some s) :
    o.context? (Snapshot.contexts r.snapshots) = some s.context := by
  cases o with
  | edit on e =>
      obtain ⟨a, ha, rfl⟩ := Option.map_eq_some_iff.mp h
      rw [Operation.context?, Snapshot.contexts_getElem? ha, Snapshot.context_edit]
      rfl
  | merge on other =>
      obtain ⟨a, b, ha, hb, rfl⟩ := result?_merge h
      rw [Operation.context?, Snapshot.contexts_getElem? ha, Snapshot.contexts_getElem? hb,
        Snapshot.context_merge]
      rfl
  | singleton key value => rw [← Option.some.inj h]; rfl
  | empty => rw [← Option.some.inj h]; rfl

theorem isSome_result?_iff :
    (r.result? o).isSome = true ↔ ∀ i ∈ o.operands, i < r.snapshots.length := by
  cases o with
  | edit on e => simp [result?, Operation.operands]
  | merge on other =>
      by_cases hon : on < r.snapshots.length <;> by_cases hother : other < r.snapshots.length <;>
        simp [result?, Operation.operands, hon, hother]
  | singleton key value => simp [result?, Operation.operands]
  | empty => simp [result?, Operation.operands]

/-! ## What holds of every record -/

/-- Only identities that have been given away are in use, and each stands for one context. -/
structure Sound (r : Record) : Prop where
  spent : ∀ a ∈ r.snapshots, a.id < r.fresh
  shared : ∀ a ∈ r.snapshots, ∀ b ∈ r.snapshots, a.id = b.id → a.context = b.context

theorem Sound.start : start.Sound where
  spent a ha := by
    rw [List.mem_singleton.mp ha]
    exact Nat.zero_lt_one
  shared a ha b hb _ := by rw [List.mem_singleton.mp ha, List.mem_singleton.mp hb]

/-- An identity that is in use does not come without an early way out. -/
theorem Sound.exists_givesBack (h : r.Sound) (hs : r.result? o = some s) (hb : b ∈ r.snapshots)
    (hsame : s.same b = true) : ∃ i, o.GivesBack (Snapshot.contexts r.snapshots) i := by
  by_contra hnone
  have hnew := id_of_result? hs fun i hi => hnone ⟨i, hi⟩
  rw [Snapshot.same_iff.mp hsame] at hnew
  exact absurd hnew (Nat.ne_of_lt (h.spent b hb))

theorem Sound.tells (h : r.Sound) (hs : r.result? o = some s) : o.Tells r.snapshots s := by
  have hback : ∀ i, o.GivesBack (Snapshot.contexts r.snapshots) i → r.snapshots[i]? = some s :=
    fun i hi => by rw [← result?_of_givesBack hi, hs]
  refine ⟨context_of_result? hs, fun halways b hb => ?_, ⟨?_, ?_⟩, fun i hi => ?_⟩
  · by_contra hsame
    obtain ⟨i, hi⟩ := h.exists_givesBack hs hb (eq_true_of_ne_false hsame)
    rw [hi.not_isAlwaysNew] at halways
    cases halways
  · rintro ⟨b, hb, hsame⟩
    exact h.exists_givesBack hs hb hsame
  · rintro ⟨i, hi⟩
    exact ⟨s, List.mem_of_getElem? (hback i hi), Snapshot.same_iff.mpr rfl⟩
  · exact ⟨s, hback i hi, fun _ => rfl⟩

theorem extend?_eq_some_iff :
    r.extend? o = some u ↔ ∃ s, r.result? o = some s ∧ ⟨r.snapshots ++ [s], r.fresh + 1⟩ = u :=
  Option.map_eq_some_iff

/-- An operation gives a snapshot that was there, or one with an identity of its own. -/
theorem Sound.extend (h : r.Sound) (hu : r.extend? o = some u) : u.Sound := by
  obtain ⟨s, hs, rfl⟩ := extend?_eq_some_iff.mp hu
  by_cases hback : ∃ i, o.GivesBack (Snapshot.contexts r.snapshots) i
  · obtain ⟨i, hi⟩ := hback
    rw [result?_of_givesBack hi] at hs
    have hmem : ∀ a ∈ r.snapshots ++ [s], a ∈ r.snapshots := by
      intro a ha
      rcases List.mem_append.mp ha with hold | hnew
      · exact hold
      · exact List.mem_singleton.mp hnew ▸ List.mem_of_getElem? hs
    exact ⟨fun a ha => Nat.lt_succ_of_lt (h.spent a (hmem a ha)),
      fun a ha b hb => h.shared a (hmem a ha) b (hmem b hb)⟩
  · have hid := id_of_result? hs fun i hi => hback ⟨i, hi⟩
    constructor
    · intro a ha
      rcases List.mem_append.mp ha with hold | hnew
      · exact Nat.lt_succ_of_lt (h.spent a hold)
      · rw [List.mem_singleton.mp hnew, hid]
        exact Nat.lt_succ_self _
    · intro a ha b hb hsame
      rcases List.mem_append.mp ha with holda | hnewa <;>
        rcases List.mem_append.mp hb with holdb | hnewb
      · exact h.shared a holda b holdb hsame
      · rw [List.mem_singleton.mp hnewb, hid] at hsame
        exact absurd hsame (Nat.ne_of_lt (h.spent a holda))
      · rw [List.mem_singleton.mp hnewa, hid] at hsame
        exact absurd hsame.symm (Nat.ne_of_lt (h.spent b holdb))
      · rw [List.mem_singleton.mp hnewa, List.mem_singleton.mp hnewb]

/-! ## A whole script -/

theorem run?_cons : r.run? (o :: script) = (r.extend? o).bind (·.run? script) := rfl

theorem run?_append : r.run? (before ++ after) = (r.run? before).bind (·.run? after) :=
  List.foldlM_append

theorem Sound.run (h : r.Sound) (hrun : r.run? script = some u) : u.Sound := by
  induction script generalizing r with
  | nil =>
      cases hrun
      exact h
  | cons o script ih =>
      obtain ⟨v, hv, hrest⟩ := Option.bind_eq_some_iff.mp hrun
      exact ih (h.extend hv) hrest

/-- A script appends one snapshot for each of its operations. -/
theorem exists_later (hrun : r.run? script = some u) :
    ∃ later, u.snapshots = r.snapshots ++ later ∧ later.length = script.length := by
  induction script generalizing r with
  | nil =>
      cases hrun
      exact ⟨[], (List.append_nil _).symm, rfl⟩
  | cons o script ih =>
      obtain ⟨v, hv, hrest⟩ := Option.bind_eq_some_iff.mp hrun
      obtain ⟨s, -, rfl⟩ := extend?_eq_some_iff.mp hv
      obtain ⟨later, hlater, hlength⟩ := ih hrest
      exact ⟨s :: later, by rw [hlater, List.append_assoc]; rfl, congrArg (· + 1) hlength⟩

/-- At every operation of a script, its result against the snapshots that were there before. -/
theorem tells_run (hrun : start.run? (before ++ o :: after) = some r) :
    ∃ s, r.snapshots[before.length + 1]? = some s ∧
      o.Tells (r.snapshots.take (before.length + 1)) s := by
  rw [run?_append] at hrun
  obtain ⟨v, hbefore, hrun⟩ := Option.bind_eq_some_iff.mp hrun
  obtain ⟨w, hw, hafter⟩ := Option.bind_eq_some_iff.mp hrun
  obtain ⟨s, hs, rfl⟩ := extend?_eq_some_iff.mp hw
  obtain ⟨first, hfirst, hfound⟩ := exists_later hbefore
  obtain ⟨later, hlater, -⟩ := exists_later hafter
  have hlength : before.length + 1 = v.snapshots.length := by
    rw [hfirst, List.length_append, hfound]
    exact Nat.add_comm _ _
  have hall : r.snapshots = v.snapshots ++ s :: later := by
    rw [hlater, List.append_assoc]
    rfl
  refine ⟨s, ?_, ?_⟩
  · rw [hall, hlength, List.getElem?_append_right (Nat.le_refl _), Nat.sub_self,
      List.getElem?_cons_zero]
  · rw [hall, hlength, List.take_left]
    exact (Sound.start.run hbefore).tells hs

end Record

/-- From a number of snapshots on, every operation of a script names snapshots that are there by
then. -/
def Placed : Nat → List Operation → Prop
  | _, [] => True
  | size, o :: script => (∀ i ∈ o.operands, i < size) ∧ Placed (size + 1) script

instance Placed.instDecidable :
    (size : Nat) → (script : List Operation) → Decidable (Placed size script)
  | _, [] => .isTrue trivial
  | size, o :: script =>
      have := Placed.instDecidable (size + 1) script
      inferInstanceAs (Decidable ((∀ i ∈ o.operands, i < size) ∧ Placed (size + 1) script))

/-- A script can be run just if it names no snapshot before it is there. -/
theorem Record.isSome_run?_iff :
    (r.run? script).isSome = true ↔ Placed r.snapshots.length script := by
  induction script generalizing r with
  | nil => exact iff_of_true rfl trivial
  | cons o script ih =>
      rw [Record.run?_cons, Placed, ← Record.isSome_result?_iff, Record.extend?]
      cases hs : r.result? o with
      | none => simp
      | some s => simp [ih]

/-- The snapshot at one position was given by an operation that had nothing to do and gave back what
is at the other one. -/
def HandedOn (script : List Operation) (contexts : List Context) (n i : Nat) : Prop :=
  ∃ before o after, script = before ++ o :: after ∧ n = before.length + 1 ∧
    o.GivesBack (contexts.take n) i

namespace HandedOn

theorem lt {contexts : List Context} (h : HandedOn script contexts n i) : i < n := by
  obtain ⟨before, o, after, -, -, hback⟩ := h
  exact Nat.lt_of_lt_of_le hback.lt_length (List.length_take_le _ _)

theorem map_id_eq (hrun : Record.start.run? script = some r)
    (h : HandedOn script (Snapshot.contexts r.snapshots) n i) :
    (r.snapshots[n]?).map Snapshot.id = (r.snapshots[i]?).map Snapshot.id := by
  have hlt := h.lt
  obtain ⟨before, o, after, rfl, rfl, hback⟩ := h
  obtain ⟨s, hs, htells⟩ := Record.tells_run hrun
  rw [Snapshot.contexts, ← List.map_take] at hback
  obtain ⟨a, ha, hsame⟩ := htells.shares i hback
  rw [List.getElem?_take_of_lt hlt] at ha
  rw [hs, ha, Option.map_some, Option.map_some,
    Snapshot.same_iff.mp ((hsame a).trans (Snapshot.same_iff.mpr rfl))]

/-- A snapshot that was there before has been handed on. -/
theorem of_id_eq (hrun : Record.start.run? script = some r) (hlt : i < n)
    (ha : r.snapshots[i]? = some a) (hs : r.snapshots[n]? = some s) (hid : s.id = a.id) :
    ∃ k, HandedOn script (Snapshot.contexts r.snapshots) n k := by
  obtain ⟨m, rfl⟩ := Nat.exists_eq_succ_of_ne_zero (Nat.ne_zero_of_lt hlt)
  have hm : m < script.length := by
    obtain ⟨later, hlater, hlength⟩ := Record.exists_later hrun
    have hbound := (List.getElem?_eq_some_iff.mp hs).1
    rw [hlater, List.length_append, hlength, Record.start, List.length_singleton] at hbound
    omega
  have hbefore : (script.take m).length = m := List.length_take_of_le (Nat.le_of_lt hm)
  have hscript : script = script.take m ++ script[m] :: script.drop (m + 1) := by
    rw [← List.drop_eq_getElem_cons hm, List.take_append_drop]
  rw [hscript] at hrun
  obtain ⟨t, ht, htells⟩ := Record.tells_run hrun
  rw [hbefore, hs] at ht
  cases ht
  rw [hbefore] at htells
  have hmem : a ∈ r.snapshots.take (m + 1) := by
    rw [← List.getElem?_take_of_lt hlt] at ha
    exact List.mem_of_getElem? ha
  obtain ⟨k, hback⟩ := htells.known_iff.mp ⟨a, hmem, Snapshot.same_iff.mpr hid⟩
  rw [Snapshot.contexts, List.map_take] at hback
  exact ⟨k, _, _, _, hscript, congrArg (· + 1) hbefore.symm, hback⟩

theorem map_id_eq_of_eqvGen (hrun : Record.start.run? script = some r)
    (h : Relation.EqvGen (HandedOn script (Snapshot.contexts r.snapshots)) i j) :
    (r.snapshots[i]?).map Snapshot.id = (r.snapshots[j]?).map Snapshot.id := by
  induction h with
  | rel n k hk => exact map_id_eq hrun hk
  | refl n => rfl
  | symm n k _ ih => exact ih.symm
  | trans n k m _ _ ih ih' => exact ih.trans ih'

/-- Snapshots of one identity are connected: the later one of two was handed on from a third one
that comes before it and has the same identity. -/
theorem connected (hrun : Record.start.run? script = some r) (hle : i ≤ j)
    (ha : r.snapshots[i]? = some a) (hb : r.snapshots[j]? = some b) (hid : a.id = b.id) :
    Relation.EqvGen (HandedOn script (Snapshot.contexts r.snapshots)) i j := by
  induction j using Nat.strongRecOn generalizing i a b with
  | ind j ih =>
      rcases Nat.eq_or_lt_of_le hle with rfl | hlt
      · exact .refl _
      · obtain ⟨k, hk⟩ := of_id_eq hrun hlt ha hb hid.symm
        have hsame := map_id_eq hrun hk
        rw [hb] at hsame
        obtain ⟨c, hc, hcid⟩ := Option.map_eq_some_iff.mp hsame.symm
        refine .trans i k j ?_ (.symm _ _ (.rel _ _ hk))
        rcases Nat.le_total i k with hik | hki
        · exact ih k hk.lt hik ha hc (hid.trans hcid.symm)
        · exact .symm _ _ (ih i hlt hki hc ha (hcid.trans hid.symm))

theorem same_iff (hrun : Record.start.run? script = some r) (ha : r.snapshots[i]? = some a)
    (hb : r.snapshots[j]? = some b) :
    a.same b = true ↔
      Relation.EqvGen (HandedOn script (Snapshot.contexts r.snapshots)) i j := by
  rw [Snapshot.same_iff]
  constructor
  · intro hid
    rcases Nat.le_total i j with hij | hji
    · exact connected hrun hij ha hb hid
    · exact .symm _ _ (connected hrun hji hb ha hid.symm)
  · intro h
    have hid := map_id_eq_of_eqvGen hrun h
    rw [ha, hb] at hid
    exact Option.some.inj hid

end HandedOn

/-- A script that names no snapshot before it is there runs to the end and appends one snapshot for
each of its operations. Any two snapshots that are the very same have the same entries. What
putting, restricting or starting anew gives is the very same as nothing before. What taking out or
merging gives is the very same as something before just if there was an early way out: the key was
absent, or one of the two contexts was empty. Then it is the very same as just those snapshots that
share the identity of what was given back. All in all, two snapshots are the very same just if they
are connected by operations that had nothing to do, and what these have given back. -/
theorem Placed.identities_sound (h : Placed 1 script) :
    ∃ r, Record.start.run? script = some r ∧ r.snapshots.length = script.length + 1 ∧
      (∀ a ∈ r.snapshots, ∀ b ∈ r.snapshots,
        a.same b = true → a.context.entries = b.context.entries) ∧
      (∀ before o after, script = before ++ o :: after →
        ∃ s, r.snapshots[before.length + 1]? = some s ∧
          o.Tells (r.snapshots.take (before.length + 1)) s) ∧
      ∀ i j a b, r.snapshots[i]? = some a → r.snapshots[j]? = some b →
        (a.same b = true ↔
          Relation.EqvGen (HandedOn script (Snapshot.contexts r.snapshots)) i j) := by
  obtain ⟨r, hrun⟩ := Option.isSome_iff_exists.mp ((Record.isSome_run?_iff (r := .start)).mpr h)
  obtain ⟨later, hlater, hlength⟩ := Record.exists_later hrun
  have hsound := Record.Sound.start.run hrun
  refine ⟨r, hrun, ?_, fun a ha b hb hsame => ?_, ?_, fun i j a b ha hb => ?_⟩
  · rw [hlater, List.length_append, hlength]
    exact Nat.add_comm _ _
  · rw [hsound.shared a ha b hb (Snapshot.same_iff.mp hsame)]
  · rintro before o after rfl
    exact Record.tells_run hrun
  · exact HandedOn.same_iff hrun ha hb

end

open scoped Scenario

/-- A context of one entry takes every early way out, and two empty ones are merged. In the end the
former is merged with itself, which is no early way out. -/
def roundabout : List Operation :=
  [.singleton "a" (.bool true), .empty, .merge 2 1, .merge 3 0, .edit 4 (.erase "b"), .merge 0 2,
    .merge 1 5]

/-- The context of one entry is the very same at four positions. The two empty ones are told apart,
and so is the last one, although its entries are not new. -/
theorem Placed.identities_sound_roundabout :
    Placed 1 roundabout ∧ ∃ r, Record.start.run? roundabout = some r ∧
      r.snapshots.map r.firstSame? =
        [some 0, some 1, some 2, some 1, some 1, some 1, some 0, some 7] ∧
      (∀ a ∈ r.snapshots, ∀ b ∈ r.snapshots,
        a.same b = true → a.context.entries = b.context.entries) ∧
      (∃ s, r.snapshots[5]? = some s ∧
        (Operation.edit 4 (.erase "b")).Tells (r.snapshots.take 5) s) ∧
      Relation.EqvGen (HandedOn roundabout (Snapshot.contexts r.snapshots)) 5 1 := by
  have hplaced : Placed 1 roundabout := by decide
  obtain ⟨r, hrun, -, hentries, htells, hsame⟩ := Placed.identities_sound hplaced
  have hfirst : (Record.start.run? roundabout).map (fun r => r.snapshots.map r.firstSame?) =
      some [some 0, some 1, some 2, some 1, some 1, some 1, some 0, some 7] := by decide +kernel
  have hids : (Record.start.run? roundabout).map
      (fun r => ((r.snapshots[5]?).map Snapshot.id, (r.snapshots[1]?).map Snapshot.id)) =
      some (some 1, some 1) := by decide +kernel
  rw [hrun] at hfirst hids
  obtain ⟨hfifth, hone⟩ := Prod.mk.inj (Option.some.inj hids)
  obtain ⟨s, hs, hsid⟩ := Option.map_eq_some_iff.mp hfifth
  obtain ⟨a, ha, haid⟩ := Option.map_eq_some_iff.mp hone
  exact ⟨hplaced, r, hrun, Option.some.inj hfirst, hentries,
    htells (roundabout.take 4) _ _ rfl,
    (hsame 5 1 s a hs ha).mp (Snapshot.same_iff.mpr (hsid.trans haid.symm))⟩

end Wiretap.Context

import Wiretap.Proofs.Context.Recipe

/-!
# The algebra of contexts

The laws of this module are equations between contexts, so they fix the order of the keys and not
only what is found under them. They rest on two equations that hold whichever early way out an
operation takes: a merge puts the second context behind those entries of the first one whose keys
the second one lacks, and taking out and restricting both keep the entries of certain keys.

Inserting replaces a value in its place where a merge moves the key to the end. So inserting an
entry and merging it agree on every value, and on the order just if the key is new or the last one.
-/

namespace Wiretap.Context

variable {K : Kinds} {a b c : Context} {key k : String} {v w : Value} {p q : String → Bool}
  {listed others : List String}

/-! ## Keeping the entries of certain keys -/

/-- The entries whose keys satisfy `p`, in the order of the context. -/
def keep (c : Context) (p : String → Bool) : Context := ⟨c.entries.filter fun e => p e.1⟩

theorem contains_keep : (c.keep p).contains key = (p key && c.contains key) := by
  rw [Bool.eq_iff_iff, Bool.and_eq_true, contains_iff, contains_iff, keep, keys_filter,
    List.mem_filter, and_comm]

theorem keep_keep : (c.keep p).keep q = c.keep fun key => p key && q key := by
  simp [keep, List.filter_filter, Bool.and_comm]

/-- Only the keys that are there matter. -/
theorem keep_congr (h : ∀ key, c.contains key = true → p key = q key) : c.keep p = c.keep q := by
  refine congrArg mk (List.filter_congr fun e he => h e.1 ?_)
  exact List.any_eq_true.mpr ⟨e, he, beq_self_eq_true e.1⟩

theorem keep_eq_self (h : ∀ key, c.contains key = true → p key = true) : c.keep p = c := by
  rw [keep_congr (q := fun _ => true) h]
  simp [keep]

theorem keep_eq_empty (h : ∀ key, c.contains key = true → p key = false) :
    c.keep p = empty := by
  rw [keep_congr (q := fun _ => false) h]
  simp [keep, empty]

theorem restrict_eq_keep : c.restrict listed = c.keep listed.contains := rfl

/-- A key that is absent need not be taken out. -/
theorem erase_eq_keep : c.erase key = c.keep (· != key) := by
  unfold erase
  split
  next => rfl
  next habsent =>
    refine (keep_eq_self fun k hk => ?_).symm
    rw [bne_iff_ne]
    rintro rfl
    exact habsent hk

/-! ## Merging -/

theorem merge_eq : a.merge b = ⟨(a.keep (!b.contains ·)).entries ++ b.entries⟩ := by
  obtain ⟨first⟩ := a
  obtain ⟨second⟩ := b
  cases first <;> cases second <;> simp [merge, isEmpty, keep, contains]

theorem contains_merge : (a.merge b).contains key = (a.contains key || b.contains key) := by
  have hsplit : (a.merge b).contains key =
      ((a.keep (!b.contains ·)).contains key || b.contains key) := by
    rw [merge_eq]
    exact List.any_append
  rw [hsplit, contains_keep]
  cases b.contains key <;> simp

theorem keep_merge : (a.merge b).keep p = (a.keep p).merge (b.keep p) := by
  have hlacking : (a.keep (!b.contains ·)).keep p = (a.keep p).keep (!(b.keep p).contains ·) := by
    rw [keep_keep, keep_keep]
    refine keep_congr fun key _ => ?_
    rw [contains_keep]
    cases p key <;> simp
  rw [merge_eq, merge_eq, ← hlacking]
  exact congrArg mk (List.filter_append _ _)

theorem empty_merge : empty.merge a = a := by
  simp [merge_eq, keep, empty]

theorem merge_empty : a.merge empty = a := rfl

theorem merge_self : a.merge a = a := by
  rw [merge_eq, keep_eq_empty fun key hkey => by rw [hkey]; rfl]
  rfl

theorem merge_assoc : (a.merge b).merge c = a.merge (b.merge c) := by
  have hfirst : (a.keep (!b.contains ·)).keep (!c.contains ·) =
      a.keep (!(b.merge c).contains ·) := by
    rw [keep_keep]
    refine keep_congr fun key _ => ?_
    rw [contains_merge, Bool.not_or]
  have hboth : ((a.merge b).keep (!c.contains ·)).entries =
      (a.keep (!(b.merge c).contains ·)).entries ++ (b.keep (!c.contains ·)).entries := by
    rw [← hfirst, merge_eq]
    exact List.filter_append _ _
  rw [merge_eq (a := a.merge b), hboth, merge_eq (a := a), merge_eq (a := b), List.append_assoc]

theorem restrict_merge :
    (a.merge b).restrict listed = (a.restrict listed).merge (b.restrict listed) :=
  keep_merge

theorem erase_merge : (a.merge b).erase key = (a.erase key).merge (b.erase key) := by
  rw [erase_eq_keep, erase_eq_keep, erase_eq_keep, keep_merge]

theorem restrict_restrict : (a.restrict listed).restrict others = a.restrict (listed ∩ others) := by
  rw [restrict_eq_keep, restrict_eq_keep, keep_keep]
  refine keep_congr fun key _ => ?_
  rw [Bool.eq_iff_iff]
  simp

/-! ## Inserting -/

theorem insert_insert : (a.insert key v).insert key w = a.insert key w := by
  unfold insert
  congr 1
  dsimp only
  induction a.entries with
  | nil => simp [insertEntry]
  | cons e entries ih => by_cases h : e.1 = key <;> simp [insertEntry, h, ih]

theorem erase_insert : (a.insert key v).erase key = a.erase key := by
  rw [erase_eq_keep, erase_eq_keep]
  unfold keep insert
  congr 1
  dsimp only
  induction a.entries with
  | nil => simp [insertEntry]
  | cons e entries ih => by_cases h : e.1 = key <;> simp [insertEntry, h, ih]

theorem find?_insert_eq_merge :
    (a.insert key v).find? = (a.merge (singleton key v)).find? := by
  funext k
  rw [find?_insert, find?_merge, singleton, find?_insert, Function.update_apply,
    Function.update_apply]
  split <;> simp [find?, empty]

/-- Entries of other keys come before the place where a value is inserted. -/
theorem insertEntry_append {first rest : List (String × Value)} (h : key ∉ keys ⟨first⟩) :
    insertEntry key v (first ++ rest) = first ++ insertEntry key v rest := by
  induction first with
  | nil => rfl
  | cons e first ih =>
      have hkeys : key ≠ e.1 ∧ key ∉ keys ⟨first⟩ := by simpa [keys] using h
      rw [List.cons_append, insertEntry, if_neg hkeys.1.symm, ih hkeys.2, List.cons_append]

theorem merge_singleton :
    a.merge (singleton key v) = ⟨(a.erase key).entries ++ [(key, v)]⟩ := by
  have hothers : (fun k => !(singleton key v).contains k) = (· != key) := by
    funext k
    simp [singleton, insert, insertEntry, empty, contains, bne, Bool.beq_comm]
  rw [merge_eq, hothers, ← erase_eq_keep]
  rfl

/-- If a key is new or the last one, the entries of the other keys all come before it. -/
theorem exists_before (h : a.keys.Nodup) (hlast : key ∈ a.keys → a.keys.getLast? = some key) :
    ∃ first rest, a.entries = first ++ rest ∧ key ∉ keys ⟨first⟩ ∧
      (rest = [] ∨ ∃ old, rest = [(key, old)]) := by
  obtain ⟨entries⟩ := a
  by_cases hmem : key ∈ keys ⟨entries⟩
  · have hkey := hlast hmem
    rcases List.eq_nil_or_concat' entries with rfl | ⟨first, e, rfl⟩
    · cases hmem
    · have hkeys : keys ⟨first ++ [e]⟩ = keys ⟨first⟩ ++ [e.1] := List.map_append
      rw [hkeys] at hkey h
      obtain rfl : e.1 = key := by simpa using hkey
      have hfirst : e.1 ∉ keys ⟨first⟩ := fun hin =>
        (List.nodup_append.mp h).2.2 _ hin _ (List.mem_singleton_self e.1) rfl
      exact ⟨first, [e], rfl, hfirst, .inr ⟨e.2, rfl⟩⟩
  · exact ⟨entries, [], (List.append_nil entries).symm, hmem, .inl rfl⟩

/-- An entry that is inserted goes where a merge puts it just if its key is new or the last one. -/
theorem insert_eq_merge_iff (h : a.keys.Nodup) :
    a.insert key v = a.merge (singleton key v) ↔
      (key ∈ a.keys → a.keys.getLast? = some key) := by
  rw [merge_singleton]
  constructor
  · intro heq hmem
    have hkeys := congrArg keys heq
    rw [keys_insert, if_pos hmem] at hkeys
    rw [hkeys]
    simp [keys]
  · intro hlast
    obtain ⟨first, rest, hentries, hfirst, hrest⟩ := exists_before h hlast
    have hkept : first.filter (fun e => e.1 != key) = first := by
      refine List.filter_eq_self.mpr fun e he => bne_iff_ne.mpr ?_
      rintro rfl
      exact hfirst (List.mem_map_of_mem he)
    have hnone : rest.filter (fun e => e.1 != key) = [] := by
      rcases hrest with rfl | ⟨old, rfl⟩ <;> simp
    have hnew : insertEntry key v rest = [(key, v)] := by
      rcases hrest with rfl | ⟨old, rfl⟩ <;> simp [insertEntry]
    rw [erase_eq_keep, insert, keep, hentries, insertEntry_append hfirst, hnew, List.filter_append,
      hkept, hnone, List.append_nil]

/-- For contexts that are built up from nothing, merging is associative and idempotent, and the
empty context is its unit on either side. Restricting and taking out may be done before a merge or
after it. What is inserted last counts, and restricting twice keeps the common keys. Inserting an
entry and merging it give the same values, and in the same order just if the key is new or the last
one. -/
theorem Recipe.algebra (a b c : Recipe) (key : String) (v w : Value) (listed others : List String) :
    (a.build.merge b.build).merge c.build = a.build.merge (b.build.merge c.build) ∧
    Context.empty.merge a.build = a.build ∧ a.build.merge Context.empty = a.build ∧
    a.build.merge a.build = a.build ∧
    (a.build.merge b.build).restrict listed =
      (a.build.restrict listed).merge (b.build.restrict listed) ∧
    (a.build.merge b.build).erase key = (a.build.erase key).merge (b.build.erase key) ∧
    (a.build.insert key v).erase key = a.build.erase key ∧
    (a.build.insert key v).insert key w = a.build.insert key w ∧
    (a.build.restrict listed).restrict others = a.build.restrict (listed ∩ others) ∧
    (∀ k, (a.build.insert key v).find? k = (a.build.merge (.singleton key v)).find? k ∧
      ∀ κ, (a.build.insert key v).get? κ k = (a.build.merge (.singleton key v)).get? κ k) ∧
    (a.build.insert key v = a.build.merge (.singleton key v) ↔
      (key ∈ a.build.keys → a.build.keys.getLast? = some key)) := by
  have hvalues : (a.build.insert key v).find? = (a.build.merge (.singleton key v)).find? :=
    find?_insert_eq_merge
  refine ⟨merge_assoc, empty_merge, merge_empty, merge_self, restrict_merge, erase_merge,
    erase_insert, insert_insert, restrict_restrict, fun k => ⟨congrFun hvalues k, fun κ => ?_⟩,
    insert_eq_merge_iff a.nodup_keys_build⟩
  rw [get?, get?, hvalues]

/-- A key that is not the last one is moved by a merge, and stays when its value is replaced. -/
example (u v w : Value) :
    (((singleton "a" u).insert "b" v).insert "a" w).keys = ["a", "b"] ∧
      (((singleton "a" u).insert "b" v).merge (singleton "a" w)).keys = ["b", "a"] := by
  exact ⟨rfl, rfl⟩

end Wiretap.Context

import Mathlib.Data.List.Nodup
import Wiretap.Context.Basic

/-!
# What the operations of a context do

A context is seen in two ways: by its keys, in order, and by the value that it has under each key.
There is one law of either kind for each operation, and every operation keeps the keys distinct.
-/

namespace Wiretap.Context

variable {K : Kinds} {c other : Context} {key k : String} {value : Value} {listed : List String}

theorem contains_iff : c.contains key = true ↔ key ∈ c.keys := by
  simp [contains, keys]

theorem isEmpty_iff : c.isEmpty = true ↔ c.keys = [] := by
  simp [isEmpty, keys]

theorem length_keys : c.keys.length = c.size := List.length_map _

/-- Looking up takes the first entry of the key. -/
theorem lookup_cons (e : String × Value) (entries : List (String × Value)) :
    (e :: entries).lookup k = if k = e.1 then some e.2 else entries.lookup k := by
  rw [List.lookup_cons]
  by_cases h : k = e.1
  · simp [h]
  · simp [h, beq_false_of_ne h]

theorem isSome_find? : (c.find? key).isSome = true ↔ key ∈ c.keys := by
  unfold find? keys
  induction c.entries with
  | nil => simp
  | cons e entries ih =>
      rw [lookup_cons, List.map_cons, List.mem_cons]
      split
      next h => simp [h]
      next h => rw [ih, or_iff_right h]

theorem find?_eq_none (h : key ∉ c.keys) : c.find? key = none := by
  rw [← isSome_find?] at h
  simpa using h

/-! ## Keeping the entries of some keys -/

theorem keys_filter (entries : List (String × Value)) (p : String → Bool) :
    keys ⟨entries.filter fun e => p e.1⟩ = (keys ⟨entries⟩).filter p := by
  simp [keys, List.filter_map, Function.comp_def]

theorem find?_filter (entries : List (String × Value)) (p : String → Bool) :
    find? ⟨entries.filter fun e => p e.1⟩ k = if p k then find? ⟨entries⟩ k else none := by
  unfold find?
  dsimp only
  induction entries with
  | nil => simp
  | cons e entries ih =>
      by_cases hk : k = e.1
      · subst hk
        by_cases hp : p e.1 = true <;> simp [lookup_cons, hp, ih]
      · by_cases hp : p e.1 = true <;> simp [lookup_cons, hp, hk, ih]

/-! ## Keys -/

theorem keys_insert :
    (c.insert key value).keys = if key ∈ c.keys then c.keys else c.keys ++ [key] := by
  unfold insert keys
  dsimp only
  induction c.entries with
  | nil => simp [insertEntry]
  | cons e entries ih =>
      by_cases h : e.1 = key
      · simp [insertEntry, h]
      · have hne : key ≠ e.1 := fun heq => h heq.symm
        rw [insertEntry, if_neg h, List.map_cons, ih, List.map_cons]
        by_cases hmem : key ∈ entries.map (·.1) <;> simp [hmem, hne]

theorem keys_merge : (c.merge other).keys = c.keys.filter (· ∉ other.keys) ++ other.keys := by
  unfold merge
  split
  next hempty => simp [isEmpty_iff.mp hempty]
  next =>
    split
    next hempty => simp [isEmpty_iff.mp hempty]
    next =>
      have hkept := keys_filter c.entries fun k => !other.contains k
      have hlacks : (fun k => !other.contains k) = fun k => decide (k ∉ other.keys) := by
        funext k
        rw [Bool.eq_iff_iff]
        simp [← contains_iff]
      rw [hlacks] at hkept
      rw [← hkept]
      exact List.map_append

theorem keys_erase : (c.erase key).keys = c.keys.filter (· ≠ key) := by
  unfold erase
  split
  next => exact (keys_filter c.entries (· != key)).trans (by simp [bne, beq_eq_decide])
  next hnone =>
    have habsent : ∀ k ∈ c.keys, k ≠ key := by
      rintro k hk rfl
      exact hnone (contains_iff.mpr hk)
    exact (List.filter_eq_self.mpr (by simpa using habsent)).symm

theorem keys_restrict : (c.restrict listed).keys = c.keys.filter (· ∈ listed) := by
  have hkept := keys_filter c.entries fun k => listed.contains k
  simpa [restrict] using hkept

theorem nodup_keys_insert (h : c.keys.Nodup) : (c.insert key value).keys.Nodup := by
  rw [keys_insert]
  split
  · exact h
  · exact List.nodup_append.mpr ⟨h, List.nodup_singleton key, by grind⟩

theorem nodup_keys_merge (h : c.keys.Nodup) (hother : other.keys.Nodup) :
    (c.merge other).keys.Nodup := by
  rw [keys_merge]
  refine List.nodup_append.mpr ⟨h.filter _, hother, ?_⟩
  rintro k hk _ hk' rfl
  simp only [List.mem_filter, decide_eq_true_eq] at hk
  exact hk.2 hk'

/-! ## Values -/

theorem find?_insert :
    (c.insert key value).find? = Function.update c.find? key (some value) := by
  funext k
  unfold insert find?
  dsimp only
  rw [Function.update_apply]
  induction c.entries with
  | nil => simp [insertEntry, lookup_cons]
  | cons e entries ih =>
      by_cases h : e.1 = key
      · subst h
        by_cases hk : k = e.1 <;> simp [insertEntry, lookup_cons, hk]
      · rw [insertEntry, if_neg h, lookup_cons, lookup_cons, ih]
        by_cases hk : k = key
        · subst hk
          rw [if_neg fun heq => h heq.symm, if_pos rfl, if_pos rfl]
        · rw [if_neg hk, if_neg hk]

theorem find?_merge : (c.merge other).find? k = (other.find? k).or (c.find? k) := by
  unfold merge
  split
  next hempty =>
    rw [find?_eq_none (by simp [isEmpty_iff.mp hempty] : k ∉ other.keys), Option.none_or]
  next =>
    split
    next hempty =>
      rw [find?_eq_none (by simp [isEmpty_iff.mp hempty] : k ∉ c.keys), Option.or_none]
    next =>
      have hkept := find?_filter (k := k) c.entries fun k => !other.contains k
      have happend : ∀ first second : List (String × Value),
          find? ⟨first ++ second⟩ k = (find? ⟨first⟩ k).or (find? ⟨second⟩ k) := by
        intro first second
        exact List.lookup_append
      rw [happend, hkept]
      by_cases hk : k ∈ other.keys
      · obtain ⟨v, hv⟩ := Option.isSome_iff_exists.mp (isSome_find?.mpr hk)
        simp [contains_iff.mpr hk, hv]
      · have hnot : other.contains k = false := by
          rw [← contains_iff] at hk
          simpa using hk
        simp [hnot, find?_eq_none hk]

theorem find?_erase : (c.erase key).find? = Function.update c.find? key none := by
  funext k
  unfold erase
  split
  next =>
    have hkept := find?_filter (k := k) c.entries (· != key)
    by_cases hk : k = key
    · subst hk
      simpa using hkept
    · simpa [hk] using hkept
  next hnone =>
    by_cases hk : k = key
    · subst hk
      rw [Function.update_self]
      exact find?_eq_none fun hmem => hnone (contains_iff.mpr hmem)
    · rw [Function.update_of_ne hk]

theorem find?_restrict : (c.restrict listed).find? k = if k ∈ listed then c.find? k else none := by
  have hkept := find?_filter (k := k) c.entries fun k => listed.contains k
  simpa [restrict] using hkept

theorem get?_eq_some_iff {κ : K.Kind} {x : K.Carrier κ} :
    c.get? κ key = some x ↔ c.find? key = some ⟨κ, x⟩ := by
  unfold get?
  rw [Option.bind_eq_some_iff]
  constructor
  · rintro ⟨v, hv, hx⟩
    rw [hv, Value.as?_eq_some_iff.mp hx]
  · intro h
    exact ⟨_, h, Value.as?_self κ x⟩

end Wiretap.Context

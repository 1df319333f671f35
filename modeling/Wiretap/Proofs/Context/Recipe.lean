import Mathlib.Data.Finset.Dedup
import Mathlib.Logic.Function.Basic
import Wiretap.Proofs.Context.Laws

/-!
# A context is a finite map with an order

However a context is built up from nothing, it is what one would keep track of by hand: a list of
distinct keys, in the order in which they were last put at the end, and for each of them the value
given last. `Recipe` is the way it was built, `order` and `value?` are the list and the map.
-/

namespace Wiretap.Context

variable {K : Kinds}

/-- How a context is built from nothing. -/
inductive Recipe [Kinds]
  /-- Nothing is put in. -/
  | empty
  /-- One entry. -/
  | singleton (key : String) (value : Value)
  /-- One more entry, or another value for a key that is there. -/
  | insert (recipe : Recipe) (key : String) (value : Value)
  /-- All entries of another context come on top. -/
  | merge (recipe other : Recipe)
  /-- A key is taken out. -/
  | erase (recipe : Recipe) (key : String)
  /-- Only the listed keys stay. -/
  | restrict (recipe : Recipe) (listed : List String)

namespace Recipe

/-- The context that the recipe builds. -/
def build : Recipe → Context
  | .empty => Context.empty
  | .singleton key value => Context.singleton key value
  | .insert recipe key value => recipe.build.insert key value
  | .merge recipe other => recipe.build.merge other.build
  | .erase recipe key => recipe.build.erase key
  | .restrict recipe listed => recipe.build.restrict listed

/-- The order of the keys: a key that is put again keeps its place, a new one goes to the end, and
the keys of a context that comes on top go behind those that it lacks. -/
def order : Recipe → List String
  | .empty => []
  | .singleton key _ => [key]
  | .insert recipe key _ => if key ∈ recipe.order then recipe.order else recipe.order ++ [key]
  | .merge recipe other => recipe.order.filter (· ∉ other.order) ++ other.order
  | .erase recipe key => recipe.order.filter (· ≠ key)
  | .restrict recipe listed => recipe.order.filter (· ∈ listed.toFinset)

/-- The map from keys to values: what comes last counts. -/
def value? : Recipe → String → Option Value
  | .empty => fun _ => none
  | .singleton key value => Function.update (fun _ => none) key (some value)
  | .insert recipe key value => Function.update recipe.value? key (some value)
  | .merge recipe other => fun key => (other.value? key).or (recipe.value? key)
  | .erase recipe key => Function.update recipe.value? key none
  | .restrict recipe listed => fun key =>
      if key ∈ listed.toFinset then recipe.value? key else none

end Recipe

/-- What can be asked of a context, answered by a list of keys and a map. -/
structure Represents (c : Context) (order : List String) (value? : String → Option Value) :
    Prop where
  keys : c.keys = order
  distinct : order.Nodup
  size : c.size = order.length
  isEmpty : c.isEmpty = true ↔ order = []
  contains (key : String) : c.contains key = true ↔ key ∈ order
  mapped (key : String) : key ∈ order ↔ ∃ value, value? key = some value
  /-- A value is found where the map has one, of the wanted kind. -/
  found (κ : K.Kind) (key : String) (x : K.Carrier κ) :
    c.get? κ key = some x ↔ value? key = some ⟨κ, x⟩
  /-- Nothing is found where the map has nothing, or a value of another kind. -/
  missing (κ : K.Kind) (key : String) :
    c.get? κ key = none ↔ ∀ x : K.Carrier κ, value? key ≠ some ⟨κ, x⟩
  getD_found (κ : K.Kind) (key : String) (x fallback : K.Carrier κ) :
    value? key = some ⟨κ, x⟩ → c.getD κ key fallback = x
  getD_missing (κ : K.Kind) (key : String) (fallback : K.Carrier κ) :
    (∀ x : K.Carrier κ, value? key ≠ some ⟨κ, x⟩) → c.getD κ key fallback = fallback

variable {c : Context}

/-- A context with distinct keys stands for its own keys and values. -/
theorem represents (h : c.keys.Nodup) : c.Represents c.keys c.find? where
  keys := rfl
  distinct := h
  size := length_keys.symm
  isEmpty := isEmpty_iff
  contains _ := contains_iff
  mapped key := by rw [← isSome_find?, Option.isSome_iff_exists]
  found _ _ _ := get?_eq_some_iff
  missing κ key := by
    rw [Option.eq_none_iff_forall_ne_some]
    exact forall_congr' fun x => not_congr get?_eq_some_iff
  getD_found κ key x fallback h := by rw [getD, get?_eq_some_iff.mpr h, Option.getD_some]
  getD_missing κ key fallback h := by
    have hnone : c.get? κ key = none := by
      rw [Option.eq_none_iff_forall_ne_some]
      exact fun x hx => h x (get?_eq_some_iff.mp hx)
    rw [getD, hnone, Option.getD_none]

namespace Recipe

theorem keys_build (r : Recipe) : r.build.keys = r.order := by
  induction r with
  | empty => rfl
  | singleton key value => rfl
  | insert r key value ih => rw [build, keys_insert, ih, order]
  | merge r other ih ihother => rw [build, keys_merge, ih, ihother, order]
  | erase r key ih => rw [build, keys_erase, ih, order]
  | restrict r listed ih =>
      rw [build, keys_restrict, ih, order]
      simp only [List.mem_toFinset]

theorem find?_build (r : Recipe) : r.build.find? = r.value? := by
  induction r with
  | empty => rfl
  | singleton key value => exact find?_insert
  | insert r key value ih => rw [build, find?_insert, ih, value?]
  | merge r other ih ihother =>
      funext key
      rw [build, find?_merge, ih, ihother, value?]
  | erase r key ih => rw [build, find?_erase, ih, value?]
  | restrict r listed ih =>
      funext key
      rw [build, find?_restrict, ih, value?]
      simp only [List.mem_toFinset]

/-- No operation puts a key where one is already. -/
theorem nodup_keys_build (r : Recipe) : r.build.keys.Nodup := by
  induction r with
  | empty => exact List.nodup_nil
  | singleton key value => exact List.nodup_singleton key
  | insert r key value ih => exact nodup_keys_insert ih
  | merge r other ih ihother => exact nodup_keys_merge ih ihother
  | erase r key ih =>
      rw [build, keys_erase]
      exact ih.filter _
  | restrict r listed ih =>
      rw [build, keys_restrict]
      exact ih.filter _

/-- However a context is built, its keys are distinct and in the order of the recipe, and what is
found under a key is what the map of the recipe has there. -/
theorem build_represents (r : Recipe) : r.build.Represents r.order r.value? := by
  have h := represents r.nodup_keys_build
  rwa [r.keys_build, r.find?_build] at h

/-- The common key of two contexts goes where the second one has it. -/
example (v w : Value) :
    (((singleton "b" v).insert "a" v).merge ((singleton "c" w).insert "b" w)).order =
      ["a", "c", "b"] := by
  simp [order]

end Recipe

end Wiretap.Context

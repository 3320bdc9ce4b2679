/-
`Proofs/Counts.lean` -- counting keys.

The checks count keys in a table of their own, one key after the other. A key that is counted for
the first time goes to the end of the table, and each later time raises its number by one. So the
table holds the keys in order of first arrival, each with how often it comes, and its numbers add up
to the number of all keys.
-/
import Mathlib.Algebra.Order.Ring.Nat
import Mathlib.Data.List.Induction
import Mathlib.Data.List.Nodup
import Statechart.OrderedMap.Lemmas
import Statechart.Siblings.Check

set_option autoImplicit false

namespace Statechart.Siblings

/-! ## 1. One key -/

/-- Counting a key raises its number by one and no other number. -/
theorem getD_countKey (counted : OrderedMap Nat) (key other : String) :
    ((countKey counted key).get? other).getD 0
      = (counted.get? other).getD 0 + if key = other then 1 else 0 := by
  by_cases h : key = other
  · rw [if_pos h, ← h, countKey, OrderedMap.get?_insert_self, Option.getD_some]
  · rw [if_neg h, countKey, OrderedMap.get?_insert_of_ne (fun e => h e.symm), Nat.add_zero]

/-- Whichever key is counted, the sum of the numbers grows by one. -/
theorem sum_countKey (counted : OrderedMap Nat) (key : String) :
    ((countKey counted key).map Prod.snd).sum = (counted.map Prod.snd).sum + 1 := by
  rw [countKey]
  induction counted with
  | nil => rfl
  | cons entry rest ih =>
      obtain ⟨k, number⟩ := entry
      rw [OrderedMap.get?_cons]
      by_cases hk : k = key
      · rw [if_pos hk, OrderedMap.insert, if_pos hk]
        simp only [Option.getD_some, List.map_cons, List.sum_cons]
        omega
      · rw [if_neg hk, OrderedMap.insert, if_neg hk, List.map_cons, List.sum_cons, ih,
          List.map_cons, List.sum_cons, Nat.add_assoc]

/-! ## 2. A run of keys -/

/-- A run of keys raises each number by how often the key comes in the run. -/
theorem getD_foldl_countKey (keys : List String) (counted : OrderedMap Nat) (key : String) :
    (OrderedMap.get? (keys.foldl countKey counted) key).getD 0
      = (counted.get? key).getD 0 + keys.count key := by
  induction keys generalizing counted with
  | nil => rfl
  | cons first rest ih =>
      rw [List.foldl_cons, ih, getD_countKey, List.count_cons, Nat.add_assoc]
      by_cases h : first = key
      · simp only [h, if_pos, beq_self_eq_true]
        omega
      · simp only [h, if_false, beq_iff_eq]
        omega

/-- Under each key stands how often it comes. -/
theorem getD_counts (keys : List String) (key : String) :
    ((counts keys).get? key).getD 0 = keys.count key := by
  rw [counts, getD_foldl_countKey, OrderedMap.get?_nil, Option.getD_none, Nat.zero_add]

/-- Each key that comes is counted behind those that came before. -/
theorem counts_append_singleton (keys : List String) (last : String) :
    counts (keys ++ [last]) = countKey (counts keys) last :=
  List.foldl_append

/-- The keys stand in order of first arrival. -/
theorem keys_counts (keys : List String) : (counts keys).keys = keys.eraseDups := by
  -- from the right, since a key is new or not by what came before it
  induction keys using List.reverseRecOn with
  | nil => rfl
  | append_singleton keys last ih =>
      rw [counts_append_singleton, countKey, OrderedMap.keys_insert, ih, List.eraseDups_append,
        List.removeAll]
      by_cases h : last ∈ keys
      · rw [if_pos (List.mem_eraseDups.mpr h), List.filter_cons_of_neg (by simpa using h),
          List.filter_nil, List.eraseDups_nil, List.append_nil]
      · rw [if_neg (fun e => h (List.mem_eraseDups.mp e)),
          List.filter_cons_of_pos (by simpa using h), List.filter_nil, List.eraseDups_cons]
        rfl

/-- Each key is counted in one place. -/
theorem distinct_counts (keys : List String) : (counts keys).Distinct := by
  induction keys using List.reverseRecOn with
  | nil => exact OrderedMap.distinct_nil
  | append_singleton keys last ih =>
      rw [counts_append_singleton]
      exact ih.insert last _

/-- The table of the numbers, key by key. -/
theorem counts_eq (keys : List String) :
    counts keys = keys.eraseDups.map fun key => (key, keys.count key) := by
  have hnumber : ∀ entry ∈ counts keys, (entry.1, keys.count entry.1) = entry := by
    rintro ⟨key, number⟩ hentry
    have hfound : (counts keys).get? key = some number := (distinct_counts keys).get?_of_mem hentry
    rw [← getD_counts keys key, hfound, Option.getD_some]
  calc counts keys = (counts keys).map fun entry => (entry.1, keys.count entry.1) :=
        ((List.map_congr_left hnumber).trans (List.map_id _)).symm
    _ = keys.eraseDups.map fun key => (key, keys.count key) := by
        rw [← keys_counts, OrderedMap.keys, List.map_map]
        rfl

/-- The numbers add up to the number of keys. -/
theorem sum_counts (keys : List String) : ((counts keys).map Prod.snd).sum = keys.length := by
  induction keys using List.reverseRecOn with
  | nil => rfl
  | append_singleton keys last ih =>
      rw [counts_append_singleton, sum_countKey, ih, List.length_append, List.length_singleton]

/-! ## 3. Repeated keys -/

/-- A key that is there comes as often among the keys that are there. -/
theorem count_filterMap_id (keys : List (Option String)) (key : String) :
    (keys.filterMap id).count key = keys.count (some key) := by
  rw [List.count_filterMap]
  rfl

/-- The repeated keys are those that come twice or more often. -/
theorem repeated_filterMap_id (keys : List (Option String)) :
    repeated (keys.filterMap id)
      = ((keys.filterMap id).eraseDups.filter fun key => 2 ≤ keys.count (some key)).map fun key =>
          (key, keys.count (some key)) := by
  rw [repeated, counts_eq, List.filter_map]
  simp only [count_filterMap_id]
  rfl

end Statechart.Siblings

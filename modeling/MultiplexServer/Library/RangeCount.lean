import Mathlib.Data.List.Count
import Mathlib.Data.List.Range

/-! Counting the numbers below a bound that satisfy a predicate: how the count follows a
change at one number, and a bound that grows. -/

namespace RangeCount

/-- Two predicates that agree except at `r`: their counts differ by what they say there. -/
theorem countP_range_change {n r : Nat} (hr : r < n) {p q : Nat → Bool}
    (h : ∀ x, x ≠ r → p x = q x) :
    (List.range n).countP p + (if q r then 1 else 0) =
      (List.range n).countP q + (if p r then 1 else 0) := by
  induction n with
  | zero => cases hr
  | succ n ih =>
    simp only [List.range_succ, List.countP_append, List.countP_singleton]
    by_cases hn : r = n
    · subst hn
      have hsame : (List.range r).countP p = (List.range r).countP q := by
        apply List.countP_congr
        intro x hx
        rw [h x (List.mem_range.mp hx).ne]
      omega
    · have := ih (by omega)
      rw [h n (Ne.symm hn)]
      omega

theorem countP_range_unique {n : Nat} {p : Nat → Bool} (h : (List.range n).countP p ≤ 1)
    {r r' : Nat} (hr : r < n) (hr' : r' < n) (hp : p r = true) (hp' : p r' = true) : r = r' := by
  rw [List.countP_eq_length_filter] at h
  have hmem : r ∈ (List.range n).filter p := List.mem_filter.mpr ⟨List.mem_range.mpr hr, hp⟩
  have hmem' : r' ∈ (List.range n).filter p := List.mem_filter.mpr ⟨List.mem_range.mpr hr', hp'⟩
  match (List.range n).filter p, h, hmem, hmem' with
  | [x], _, hx, hx' => rw [List.mem_singleton.mp hx, List.mem_singleton.mp hx']

theorem countP_range_getElem? {α : Type*} [DecidableEq α] (xs : List α) (x : α) :
    (List.range xs.length).countP (fun i => decide (xs[i]? = some x)) = xs.count x := by
  induction xs with
  | nil => rfl
  | cons y xs ih =>
    rw [List.length_cons, List.range_succ_eq_map, List.countP_cons, List.countP_map,
      List.count_cons, ← ih]
    simp [Function.comp_def]

theorem countP_range_append {α : Type*} [DecidableEq α] {n : Nat} {xs : List α} {x : α}
    {p q : Nat → Bool} (hold : ∀ r < n, q r = p r)
    (hnew : ∀ i y, xs[i]? = some y → q (n + i) = decide (y = x)) :
    (List.range (n + xs.length)).countP q = (List.range n).countP p + xs.count x := by
  rw [List.range_add, List.countP_append, List.countP_map, ← countP_range_getElem?]
  congr 1
  · apply List.countP_congr
    intro r hr
    rw [hold r (List.mem_range.mp hr)]
  · apply List.countP_congr
    intro i hi
    have hget := List.getElem?_eq_getElem (List.mem_range.mp hi)
    simp [hnew i _ hget, hget]

end RangeCount

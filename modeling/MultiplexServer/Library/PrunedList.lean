import Mathlib.Data.List.TakeWhile
import Mathlib.Data.List.Infix

/-! A list that grows at its end and a pruned copy of it. What the copy misses stands
at the front of the list and is of no use: every search that skips it finds in the
copy what it would find in the list. -/

def PrunedFrom {α : Type*} (skip : α → Bool) (history kept : List α) : Prop :=
  ∃ removed, history = removed ++ kept ∧ ∀ x ∈ removed, skip x = true

namespace PrunedFrom

variable {α β : Type*} {skip : α → Bool} {history kept : List α}

theorem refl (skip : α → Bool) (history : List α) : PrunedFrom skip history history :=
  ⟨[], rfl, fun _ h => absurd h List.not_mem_nil⟩

theorem append (h : PrunedFrom skip history kept) (more : List α) :
    PrunedFrom skip (history ++ more) (kept ++ more) := by
  obtain ⟨removed, rfl, hremoved⟩ := h
  exact ⟨removed, List.append_assoc removed kept more, hremoved⟩

theorem mono (h : PrunedFrom skip history kept) {skip' : α → Bool}
    (hskip : ∀ x, skip x = true → skip' x = true) : PrunedFrom skip' history kept := by
  obtain ⟨removed, rfl, hremoved⟩ := h
  exact ⟨removed, rfl, fun x hx => hskip x (hremoved x hx)⟩

theorem dropWhile (h : PrunedFrom skip history kept) :
    PrunedFrom skip history (kept.dropWhile skip) := by
  obtain ⟨removed, rfl, hremoved⟩ := h
  refine ⟨removed ++ kept.takeWhile skip, ?_, fun x hx => ?_⟩
  · rw [List.append_assoc, List.takeWhile_append_dropWhile]
  · rcases List.mem_append.mp hx with hx | hx
    · exact hremoved x hx
    · exact List.mem_takeWhile_imp hx

theorem find?_eq (h : PrunedFrom skip history kept) {p : α → Bool}
    (hp : ∀ x, skip x = true → p x = false) : history.find? p = kept.find? p := by
  obtain ⟨removed, rfl, hremoved⟩ := h
  have hnone : removed.find? p = none :=
    List.find?_eq_none.mpr fun x hx => by simp [hp x (hremoved x hx)]
  rw [List.find?_append, hnone, Option.none_or]

theorem filter_eq (h : PrunedFrom skip history kept) {p : α → Bool}
    (hp : ∀ x, skip x = true → p x = false) : history.filter p = kept.filter p := by
  obtain ⟨removed, rfl, hremoved⟩ := h
  have hnone : removed.filter p = [] :=
    List.filter_eq_nil_iff.mpr fun x hx => by simp [hp x (hremoved x hx)]
  rw [List.filter_append, hnone, List.nil_append]

end PrunedFrom

/-- When all that is useless stands at the front, pruning leaves what is of use. -/
theorem dropWhile_eq_filter {α : Type*} {skip : α → Bool} {l : List α}
    (h : l.filter (fun x => !skip x) <:+ l) : l.dropWhile skip = l.filter fun x => !skip x := by
  obtain ⟨front, hsplit⟩ := h
  have hfront : front.filter (fun x => !skip x) = [] := by
    have hfilter := congrArg (List.filter fun x => !skip x) hsplit
    rw [List.filter_append, List.filter_filter] at hfilter
    simpa using hfilter
  have huseless : ∀ x ∈ front, skip x = true := by
    intro x hx
    simpa using List.filter_eq_nil_iff.mp hfront x hx
  have hrest : (l.filter fun x => !skip x).dropWhile skip = l.filter fun x => !skip x := by
    rw [List.dropWhile_eq_self_iff]
    intro hpos
    have hmem := List.getElem_mem (l := l.filter fun x => !skip x) hpos
    simpa using (List.mem_filter.mp hmem).2
  calc l.dropWhile skip
      = (front ++ l.filter fun x => !skip x).dropWhile skip := by rw [hsplit]
    _ = (l.filter fun x => !skip x).dropWhile skip := List.dropWhile_append_of_pos huseless
    _ = l.filter fun x => !skip x := hrest

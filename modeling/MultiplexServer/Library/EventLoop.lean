import Mathlib.Data.List.Induction
import Mathlib.Tactic.Common

/-! Loops of the shape `while (true) { guard; wait for an event; body }`.
A loop is its guard and its body; a run is driven by the list of events that
have happened. `run` is the state at the loop head after those events, or the
value returned earlier; `result` also evaluates the guard standing there. -/

structure EventLoop (σ ε ρ : Type*) where
  guard : σ → Option ρ
  body : σ → ε → σ ⊕ ρ

namespace EventLoop

variable {σ ε ρ : Type*} (L : EventLoop σ ε ρ)

def pass (s : σ) (e : ε) : σ ⊕ ρ :=
  match L.guard s with
  | some r => .inr r
  | none => L.body s e

def run : σ → List ε → σ ⊕ ρ
  | s, [] => .inl s
  | s, e :: es =>
    match L.pass s e with
    | .inl t => run t es
    | .inr r => .inr r

def result (s : σ) (es : List ε) : Option ρ :=
  match L.run s es with
  | .inl t => L.guard t
  | .inr r => some r

theorem pass_of_guard_none {s : σ} (h : L.guard s = none) (e : ε) :
    L.pass s e = L.body s e := by
  simp only [pass, h]

theorem pass_of_guard_some {s : σ} {r : ρ} (h : L.guard s = some r) (e : ε) :
    L.pass s e = .inr r := by
  simp only [pass, h]

theorem guard_none_of_pass_inl {s t : σ} {e : ε} (h : L.pass s e = .inl t) :
    L.guard s = none := by
  cases hg : L.guard s with
  | none => rfl
  | some r => rw [L.pass_of_guard_some hg] at h; cases h

theorem run_append_inl {s t : σ} {xs : List ε} (h : L.run s xs = .inl t) (ys : List ε) :
    L.run s (xs ++ ys) = L.run t ys := by
  induction xs generalizing s with
  | nil =>
    cases h
    rfl
  | cons x xs ih =>
    simp only [run, List.cons_append] at h ⊢
    cases hp : L.pass s x with
    | inl u => simp only [hp] at h ⊢; exact ih h
    | inr r => simp only [hp] at h; cases h

theorem run_append_inr {s : σ} {r : ρ} {xs : List ε} (h : L.run s xs = .inr r)
    (ys : List ε) : L.run s (xs ++ ys) = .inr r := by
  induction xs generalizing s with
  | nil => cases h
  | cons x xs ih =>
    simp only [run, List.cons_append] at h ⊢
    cases hp : L.pass s x with
    | inl u => simp only [hp] at h ⊢; exact ih h
    | inr q => simp only [hp] at h ⊢; exact h

theorem run_concat (s : σ) (xs : List ε) (e : ε) :
    L.run s (xs ++ [e]) =
      match L.run s xs with
      | .inl t => L.pass t e
      | .inr r => .inr r := by
  cases h : L.run s xs with
  | inl t =>
    rw [L.run_append_inl h]
    simp only [run]
    cases L.pass t e <;> rfl
  | inr r => exact L.run_append_inr h [e]

theorem result_append {s : σ} {r : ρ} {xs : List ε} (h : L.result s xs = some r)
    (ys : List ε) : L.result s (xs ++ ys) = some r := by
  unfold result at h ⊢
  cases hx : L.run s xs with
  | inr q =>
    rw [L.run_append_inr hx]
    simpa only [hx] using h
  | inl t =>
    simp only [hx] at h
    rw [L.run_append_inl hx]
    cases ys with
    | nil => exact h
    | cons y ys => simp only [run, L.pass_of_guard_some h]

/-- The loop returns either from its guard, at the loop head reached by some
prefix of the events, or from its body, on the event that follows one. -/
theorem result_eq_some_iff {s : σ} {r : ρ} {es : List ε} :
    L.result s es = some r ↔
      ∃ xs ys t, es = xs ++ ys ∧ L.run s xs = .inl t ∧
        (L.guard t = some r ∨ ∃ e zs, ys = e :: zs ∧ L.guard t = none ∧ L.body t e = .inr r) := by
  constructor
  · intro h
    induction es generalizing s with
    | nil => exact ⟨[], [], s, rfl, rfl, .inl h⟩
    | cons e es ih =>
      cases hg : L.guard s with
      | some q =>
        have hq : q = r := by simpa [result, run, L.pass_of_guard_some hg] using h
        exact ⟨[], e :: es, s, rfl, rfl, .inl (hq ▸ hg)⟩
      | none =>
        have hp := L.pass_of_guard_none hg e
        cases hb : L.body s e with
        | inr q =>
          have hq : q = r := by simpa [result, run, hp, hb] using h
          exact ⟨[], e :: es, s, rfl, rfl, .inr ⟨e, es, rfl, hg, hq ▸ hb⟩⟩
        | inl u =>
          have hu : L.result u es = some r := by simpa [result, run, hp, hb] using h
          obtain ⟨xs, ys, t, rfl, hrun, hret⟩ := ih hu
          exact ⟨e :: xs, ys, t, rfl, by simpa [run, hp, hb] using hrun, hret⟩
  · rintro ⟨xs, ys, t, rfl, hrun, hret⟩
    rcases hret with hg | ⟨e, zs, rfl, hg, hb⟩
    · exact L.result_append (by simpa [result, hrun] using hg) ys
    · have hx : L.run s (xs ++ [e]) = .inr r := by
        rw [run_concat, hrun]
        exact (L.pass_of_guard_none hg e).trans hb
      have hy := L.run_append_inr hx zs
      rw [List.append_assoc] at hy
      simp only [List.cons_append, List.nil_append] at hy
      simp only [result, hy]

/-- Loop invariant rule. The invariant may speak about all events so far. -/
theorem run_invariant {I : List ε → σ → Prop} {s₀ : σ} (init : I [] s₀)
    (step : ∀ xs s e t, I xs s → L.guard s = none → L.body s e = .inl t → I (xs ++ [e]) t)
    {es : List ε} {s : σ} (h : L.run s₀ es = .inl s) : I es s := by
  induction es using List.reverseRecOn generalizing s with
  | nil =>
    cases h
    exact init
  | append_singleton xs e ih =>
    rw [run_concat] at h
    cases hx : L.run s₀ xs with
    | inr r => simp only [hx] at h; cases h
    | inl t =>
      simp only [hx] at h
      have hg := L.guard_none_of_pass_inl h
      exact step xs t e s (ih hx) hg (by rwa [L.pass_of_guard_none hg] at h)

/-! ## Endless sequences of events -/

def firstEvents (events : Nat → ε) (k : Nat) : List ε :=
  (List.range k).map events

theorem firstEvents_succ (events : Nat → ε) (k : Nat) :
    firstEvents events (k + 1) = firstEvents events k ++ [events k] := by
  simp [firstEvents, List.range_succ]

theorem firstEvents_le (events : Nat → ε) {j k : Nat} (h : j ≤ k) :
    ∃ ys, firstEvents events k = firstEvents events j ++ ys := by
  obtain ⟨more, rfl⟩ := Nat.exists_eq_add_of_le h
  clear h
  induction more with
  | zero => exact ⟨[], by rw [List.append_nil, Nat.add_zero]⟩
  | succ more ih =>
    obtain ⟨ys, hys⟩ := ih
    refine ⟨ys ++ [events (j + more)], ?_⟩
    rw [← Nat.add_assoc, firstEvents_succ, hys, List.append_assoc]

theorem firstEvents_split {events : Nat → ε} {k : Nat} {xs ys : List ε}
    (h : firstEvents events k = xs ++ ys) :
    xs = firstEvents events xs.length ∧ ∀ e zs, ys = e :: zs → e = events xs.length := by
  have hget : ∀ i, (xs ++ ys)[i]? = if i < k then some (events i) else none := by
    intro i
    rw [← h, firstEvents, List.getElem?_map]
    split_ifs with hi
    · rw [List.getElem?_range hi]; rfl
    · rw [List.getElem?_eq_none (by simpa using hi)]; rfl
  have hlen : xs.length + ys.length = k := by
    rw [← List.length_append, ← h]
    simp [firstEvents]
  constructor
  · apply List.ext_getElem?
    intro i
    by_cases hi : i < xs.length
    · have hleft : (xs ++ ys)[i]? = xs[i]? := List.getElem?_append_left hi
      rw [← hleft, hget, if_pos (by omega), firstEvents, List.getElem?_map,
        List.getElem?_range hi]
      rfl
    · rw [List.getElem?_eq_none (by omega), List.getElem?_eq_none (by simp [firstEvents]; omega)]
  · rintro e zs rfl
    have := hget xs.length
    rw [List.getElem?_append_right (Nat.le_refl _), if_pos (by simp at hlen; omega)] at this
    simpa using this

end EventLoop

import Mathlib.Data.List.Nodup
import Mathlib.Logic.Function.Basic
import MultiplexServer.Library.Machine

/-! A machine that refines another one: seen through `abs`, each of its steps is the run
of the other that `labels` says. A family of automata is a machine too; its labels say at
which key it moves, and moves at different keys make up one run. -/

namespace Machine

section Refines

variable {σ τ ι κ : Type*} {m : Machine σ ι} {n : Machine τ κ} {abs : σ → τ}
  {labels : ι → σ → List κ}

structure Refines (m : Machine σ ι) (n : Machine τ κ) (abs : σ → τ)
    (labels : ι → σ → List κ) : Prop where
  start : abs m.start = n.start
  step : ∀ s t a, m.Reachable s → m.step a s = some t →
    n.run (labels a s) (abs s) = some (abs t)

theorem Reachable.run {labels : List ι} {s t : σ} (h : m.Reachable s)
    (hrun : m.run labels s = some t) : m.Reachable t :=
  ReachableUnder.run h hrun

theorem Refines.reachable (h : m.Refines n abs labels) {s : σ} (hs : m.Reachable s) :
    n.Reachable (abs s) := by
  induction hs with
  | start => exact h.start ▸ .start
  | step before _ taken ih => exact Reachable.run ih (h.step _ _ _ before taken)

theorem Refines.run (h : m.Refines n abs labels) {run : List ι} {s t : σ} (hs : m.Reachable s)
    (hrun : m.run run s = some t) : n.run (m.collect labels run s) (abs s) = some (abs t) := by
  induction run generalizing s with
  | nil =>
    cases hrun
    rfl
  | cons a run ih =>
    obtain ⟨u, hstep, hrest⟩ := run_cons hrun
    rw [collect_cons labels run hstep]
    exact run_append (h.step s u a hs hstep) (ih (.step hs trivial hstep) hrest)

end Refines

section Family

variable {κ α ε : Type*} [DecidableEq κ]

/-- The same automaton at every key. -/
def family (start : α) (next : ε → α → Option α) : Machine (κ → α) (κ × ε) where
  start _ := start
  step label f := (next label.2 (f label.1)).map (Function.update f label.1)

variable {start : α} {next : ε → α → Option α}

theorem family_step {k : κ} {event : ε} {f : κ → α} {target : α}
    (h : next event (f k) = some target) :
    (family start next).step (k, event) f = some (Function.update f k target) :=
  congrArg (Option.map (Function.update f k)) h

theorem family_run {keys : List κ} (hkeys : keys.Nodup) {event : κ → ε} {f g : κ → α}
    (hmoves : ∀ k ∈ keys, next (event k) (f k) = some (g k)) (hstays : ∀ k ∉ keys, g k = f k) :
    (family start next).run (keys.map fun k => (k, event k)) f = some g := by
  induction keys generalizing f with
  | nil =>
    have hsame : f = g := funext fun k => (hstays k List.not_mem_nil).symm
    rw [hsame]
    rfl
  | cons k keys ih =>
    obtain ⟨hk, hrest⟩ := List.nodup_cons.mp hkeys
    rw [List.map_cons, run, runUnder, if_pos trivial, family_step (hmoves k List.mem_cons_self)]
    refine ih hrest (fun j hj => ?_) fun j hj => ?_
    · have hne : j ≠ k := fun heq => hk (heq ▸ hj)
      rw [Function.update_of_ne hne]
      exact hmoves j (List.mem_cons_of_mem k hj)
    · by_cases hjk : j = k
      · rw [hjk, Function.update_self]
      · rw [Function.update_of_ne hjk]
        exact hstays j fun hin => (List.mem_cons.mp hin).elim hjk hj

theorem family_run_singleton {k : κ} {event : ε} {f g : κ → α}
    (hmove : next event (f k) = some (g k)) (hstays : ∀ j, j ≠ k → g j = f j) :
    (family start next).run [(k, event)] f = some g := by
  rw [run_singleton, family_step hmove]
  congr 1
  funext j
  by_cases hjk : j = k
  · rw [hjk, Function.update_self]
  · rw [Function.update_of_ne hjk, hstays j hjk]

theorem family_run_at {labels : List (κ × ε)} {f g : κ → α}
    (h : (family start next).run labels f = some g) (k : κ) :
    Machine.run ⟨start, next⟩ ((labels.filter (·.1 = k)).map Prod.snd) (f k) = some (g k) := by
  induction labels generalizing f with
  | nil =>
    cases h
    rfl
  | cons label labels ih =>
    obtain ⟨u, hstep, hrest⟩ := run_cons h
    obtain ⟨target, hnext, rfl⟩ := Option.map_eq_some_iff.mp hstep
    have hlater := ih hrest
    by_cases hk : label.1 = k
    · subst hk
      rw [List.filter_cons_of_pos (by simp), List.map_cons, run, runUnder, if_pos trivial]
      simp only [Function.update_self] at hlater
      exact Option.bind_eq_some_iff.mpr ⟨target, hnext, hlater⟩
    · rw [Function.update_of_ne (Ne.symm hk)] at hlater
      rwa [List.filter_cons_of_neg (by simpa using hk)]

end Family

end Machine

import Mathlib.Tactic.Common

/-! Machines that take one labelled step at a time. The label fixes every choice of
the surroundings, so a step is a partial function. `ReachableUnder guard` collects the
states of the runs whose every step meets `guard` in the state it starts from. -/

structure Machine (σ ι : Type*) where
  start : σ
  step : ι → σ → Option σ

namespace Machine

variable {σ ι : Type*} (m : Machine σ ι)

inductive ReachableUnder (guard : ι → σ → Prop) : σ → Prop where
  | start : ReachableUnder guard m.start
  | step {s t : σ} {a : ι} (before : ReachableUnder guard s) (ok : guard a s)
      (taken : m.step a s = some t) : ReachableUnder guard t

abbrev Reachable : σ → Prop := m.ReachableUnder fun _ _ => True

variable {m} {guard : ι → σ → Prop}

/-- What holds at the start and is kept by every guarded step holds everywhere. -/
theorem ReachableUnder.invariant {I : σ → Prop} (start : I m.start)
    (step : ∀ s t a, I s → guard a s → m.step a s = some t → I t) {s : σ}
    (h : m.ReachableUnder guard s) : I s := by
  induction h with
  | start => exact start
  | step _ ok taken ih => exact step _ _ _ ih ok taken

theorem Reachable.invariant {I : σ → Prop} (start : I m.start)
    (step : ∀ s t a, m.Reachable s → I s → m.step a s = some t → I t) {s : σ}
    (h : m.Reachable s) : I s := by
  induction h with
  | start => exact start
  | step before _ taken ih => exact step _ _ _ before ih taken

theorem ReachableUnder.reachable {s : σ} (h : m.ReachableUnder guard s) : m.Reachable s :=
  h.invariant (I := m.Reachable) .start fun _ _ _ hs _ hstep => .step hs trivial hstep

section Runs

variable (m) (guard) [∀ a s, Decidable (guard a s)]

def runUnder : List ι → σ → Option σ
  | [], s => some s
  | a :: labels, s => if guard a s then (m.step a s).bind (runUnder labels) else none

variable {m} {guard}

theorem ReachableUnder.run {labels : List ι} {s t : σ} (h : m.ReachableUnder guard s)
    (hrun : m.runUnder guard labels s = some t) : m.ReachableUnder guard t := by
  induction labels generalizing s with
  | nil =>
    cases hrun
    exact h
  | cons a labels ih =>
    rw [runUnder, Option.ite_none_right_eq_some] at hrun
    obtain ⟨hguard, hrun⟩ := hrun
    obtain ⟨u, hstep, hrest⟩ := Option.bind_eq_some_iff.mp hrun
    exact ih (.step h hguard hstep) hrest

theorem reachableUnder_of_run {labels : List ι} {t : σ}
    (h : m.runUnder guard labels m.start = some t) : m.ReachableUnder guard t :=
  ReachableUnder.run .start h

end Runs

abbrev run (m : Machine σ ι) : List ι → σ → Option σ := m.runUnder fun _ _ => True

theorem run_singleton {a : ι} {s : σ} : m.run [a] s = m.step a s := by
  rw [run, runUnder, if_pos trivial]
  exact Option.bind_fun_some (m.step a s)

theorem run_append {labels more : List ι} {s t u : σ} (h : m.run labels s = some t)
    (hmore : m.run more t = some u) : m.run (labels ++ more) s = some u := by
  induction labels generalizing s with
  | nil =>
    cases h
    exact hmore
  | cons a labels ih =>
    rw [run, runUnder, if_pos trivial] at h
    obtain ⟨v, hstep, hrest⟩ := Option.bind_eq_some_iff.mp h
    rw [List.cons_append, run, runUnder, if_pos trivial, hstep]
    exact ih hrest

theorem run_cons {a : ι} {labels : List ι} {s u : σ} (h : m.run (a :: labels) s = some u) :
    ∃ t, m.step a s = some t ∧ m.run labels t = some u := by
  rw [run, runUnder, if_pos trivial] at h
  exact Option.bind_eq_some_iff.mp h

theorem run_of_append {labels more : List ι} {s u : σ} (h : m.run (labels ++ more) s = some u) :
    ∃ t, m.run labels s = some t ∧ m.run more t = some u := by
  induction labels generalizing s with
  | nil => exact ⟨s, rfl, h⟩
  | cons a labels ih =>
    obtain ⟨v, hstep, hrest⟩ := run_cons h
    obtain ⟨t, hrun, hmore⟩ := ih hrest
    refine ⟨t, ?_, hmore⟩
    rw [run, runUnder, if_pos trivial, hstep]
    exact hrun

theorem reachable_of_run {labels : List ι} {t : σ} (h : m.run labels m.start = some t) :
    m.Reachable t :=
  reachableUnder_of_run h

/-- What the steps of the run of these labels yield, as far as they can be taken. -/
def collect {β : Type*} (m : Machine σ ι) (yields : ι → σ → List β) : List ι → σ → List β
  | [], _ => []
  | a :: labels, s => yields a s ++ ((m.step a s).map (collect m yields labels)).getD []

theorem collect_cons {β : Type*} {a : ι} {s t : σ} (yields : ι → σ → List β) (labels : List ι)
    (hstep : m.step a s = some t) :
    m.collect yields (a :: labels) s = yields a s ++ m.collect yields labels t := by
  rw [collect, hstep]
  rfl

section Along

variable (m) (P Q : ι → σ → Prop)

/-- Every step of the run of these labels, as far as it can be taken, is as `P` says. -/
def Along : List ι → σ → Prop
  | [], _ => True
  | a :: labels, s => P a s ∧ ∀ t, m.step a s = some t → Along labels t

variable {m} {P Q}

theorem Along.of_run {labels : List ι} {a : ι} {after : List ι} {s t : σ}
    (h : m.Along P (labels ++ a :: after) s) (hrun : m.run labels s = some t) : P a t := by
  induction labels generalizing s with
  | nil =>
    cases hrun
    exact h.1
  | cons b labels ih =>
    rw [run, runUnder, if_pos trivial] at hrun
    obtain ⟨u, hstep, hrest⟩ := Option.bind_eq_some_iff.mp hrun
    exact ih (h.2 u hstep) hrest

/-- Two properties of steps that agree in the states of `I` hold along the same runs, when
one of them keeps a run in `I`. -/
theorem along_congr {I : σ → Prop} {labels : List ι}
    (agree : ∀ a ∈ labels, ∀ s, I s → (P a s ↔ Q a s))
    (step : ∀ a ∈ labels, ∀ s t, I s → Q a s → m.step a s = some t → I t) {s : σ}
    (start : I s) : m.Along P labels s ↔ m.Along Q labels s := by
  induction labels generalizing s with
  | nil => exact Iff.rfl
  | cons a labels ih =>
    have hhead := agree a List.mem_cons_self s start
    have hkeep := step a List.mem_cons_self s
    have hrest := @ih (fun b hb => agree b (List.mem_cons_of_mem a hb))
      (fun b hb => step b (List.mem_cons_of_mem a hb))
    constructor
    · rintro ⟨hp, hnext⟩
      have hq := hhead.mp hp
      exact ⟨hq, fun t ht => (hrest (hkeep t start hq ht)).mp (hnext t ht)⟩
    · rintro ⟨hq, hnext⟩
      exact ⟨hhead.mpr hq, fun t ht => (hrest (hkeep t start hq ht)).mpr (hnext t ht)⟩

end Along

end Machine

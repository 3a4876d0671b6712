import Mathlib.Order.Nat
import MultiplexServer.Library.Refinement

/-! Work that drains. There is a load, which the quiet steps never raise, and work of
several kinds, each with steps that serve it. Quiet steps keep work that they do not
lower the load for, so a stretch of them that serves every kind lowers it. Where every
step lowers the load, runs come to an end in whatever order the steps are taken. -/

namespace Machine

variable {σ ι κ : Type*}

structure Drains (m : Machine σ ι) (quiet : ι → Prop) (load : σ → Nat) (needs : κ → σ → Prop)
    (serves : κ → ι → Prop) : Prop where
  some_need : ∀ s, m.Reachable s → load s ≠ 0 → ∃ k, needs k s
  quiet_step : ∀ s t a, m.Reachable s → quiet a → m.step a s = some t →
    load t < load s ∨ load t = load s ∧ ∀ k, needs k s → needs k t
  serve_step : ∀ s t a k, m.Reachable s → quiet a → serves k a → needs k s →
    m.step a s = some t → load t < load s

namespace Drains

variable {m : Machine σ ι} {quiet : ι → Prop} {load : σ → Nat} {needs : κ → σ → Prop}
  {serves : κ → ι → Prop} {s t : σ}

theorem step_le (h : m.Drains quiet load needs serves) {a : ι} (hs : m.Reachable s)
    (hquiet : quiet a) (hstep : m.step a s = some t) : load t ≤ load s :=
  (h.quiet_step s t a hs hquiet hstep).elim Nat.le_of_lt fun hsame => hsame.1.le

theorem run_le (h : m.Drains quiet load needs serves) {labels : List ι} (hs : m.Reachable s)
    (hquiet : ∀ a ∈ labels, quiet a) (hrun : m.run labels s = some t) : load t ≤ load s := by
  induction labels generalizing s with
  | nil =>
    cases hrun
    exact Nat.le_refl _
  | cons a labels ih =>
    obtain ⟨ha, hlabels⟩ := List.forall_mem_cons.mp hquiet
    obtain ⟨u, hstep, hrest⟩ := run_cons hrun
    exact (ih (.step hs trivial hstep) hlabels hrest).trans (h.step_le hs ha hstep)

theorem run_lt (h : m.Drains quiet load needs serves) {labels : List ι} {k : κ}
    (hs : m.Reachable s) (hquiet : ∀ a ∈ labels, quiet a) (hserved : ∃ a ∈ labels, serves k a)
    (hneeds : needs k s) (hrun : m.run labels s = some t) : load t < load s := by
  induction labels generalizing s with
  | nil =>
    obtain ⟨a, ha, -⟩ := hserved
    cases ha
  | cons a labels ih =>
    obtain ⟨ha, hlabels⟩ := List.forall_mem_cons.mp hquiet
    obtain ⟨u, hstep, hrest⟩ := run_cons hrun
    have hu : m.Reachable u := .step hs trivial hstep
    have hle := h.run_le hu hlabels hrest
    by_cases hnow : serves k a
    · exact hle.trans_lt (h.serve_step s u a k hs ha hnow hneeds hstep)
    · rcases h.quiet_step s u a hs ha hstep with hlower | ⟨hsame, hkept⟩
      · exact hle.trans_lt hlower
      · have hlater : ∃ b ∈ labels, serves k b := by
          obtain ⟨b, hb, hserves⟩ := hserved
          refine ⟨b, (List.mem_cons.mp hb).resolve_left ?_, hserves⟩
          rintro rfl
          exact hnow hserves
        exact hsame ▸ ih hu hlabels hlater (hkept k hneeds) hrest

/-- A round that serves every kind of work lowers the load. -/
theorem round (h : m.Drains quiet load needs serves) {labels : List ι} (hs : m.Reachable s)
    (hquiet : ∀ a ∈ labels, quiet a) (hserved : ∀ k, ∃ a ∈ labels, serves k a)
    (hrun : m.run labels s = some t) : load t ≤ load s - 1 := by
  by_cases hzero : load s = 0
  · exact (h.run_le hs hquiet hrun).trans (by omega)
  · obtain ⟨k, hneeds⟩ := h.some_need s hs hzero
    exact Nat.le_sub_one_of_lt (h.run_lt hs hquiet (hserved k) hneeds hrun)

theorem rounds (h : m.Drains quiet load needs serves) {rounds : List (List ι)}
    (hs : m.Reachable s) (hquiet : ∀ labels ∈ rounds, ∀ a ∈ labels, quiet a)
    (hserved : ∀ labels ∈ rounds, ∀ k, ∃ a ∈ labels, serves k a) (hlong : load s ≤ rounds.length)
    (hrun : m.run rounds.flatten s = some t) : load t = 0 := by
  induction rounds generalizing s with
  | nil =>
    cases hrun
    exact Nat.le_zero.mp hlong
  | cons labels rounds ih =>
    obtain ⟨hfirst, hlater⟩ := List.forall_mem_cons.mp hquiet
    obtain ⟨hserves, hall⟩ := List.forall_mem_cons.mp hserved
    obtain ⟨u, hround, hrest⟩ := run_of_append hrun
    have hlower := h.round hs hfirst hserves hround
    rw [List.length_cons] at hlong
    exact ih (hs.run hround) hlater hall (by omega) hrest

end Drains

/-! ## Runs that come to an end -/

/-- In the states of `I`, which no step leaves, every marked step lowers the load and no
other one raises it. -/
structure Exhausts (m : Machine σ ι) (marked : ι → Bool) (I : σ → Prop) (load : σ → Nat) :
    Prop where
  keeps : ∀ s t a, m.Reachable s → I s → m.step a s = some t → I t
  lowers : ∀ s t a, m.Reachable s → I s → marked a = true → m.step a s = some t → load t < load s
  others : ∀ s t a, m.Reachable s → I s → marked a = false → m.step a s = some t →
    load t ≤ load s

namespace Exhausts

variable {m : Machine σ ι} {marked : ι → Bool} {I : σ → Prop} {load : σ → Nat} {s t : σ}

theorem countP_le (h : m.Exhausts marked I load) {labels : List ι} (hs : m.Reachable s)
    (hI : I s) (hrun : m.run labels s = some t) : labels.countP marked + load t ≤ load s := by
  induction labels generalizing s with
  | nil =>
    cases hrun
    simp
  | cons a labels ih =>
    obtain ⟨u, hstep, hrest⟩ := run_cons hrun
    have hle := ih (.step hs trivial hstep) (h.keeps s u a hs hI hstep) hrest
    rw [List.countP_cons]
    cases ha : marked a with
    | true =>
      have hlt := h.lowers s u a hs hI ha hstep
      rw [if_pos rfl]
      omega
    | false =>
      have hnot := h.others s u a hs hI ha hstep
      rw [if_neg Bool.false_ne_true]
      omega

end Exhausts

end Machine

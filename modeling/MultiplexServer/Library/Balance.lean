import Mathlib.Data.List.Perm.Basic
import MultiplexServer.Library.Machine

/-! Accounts over runs. A machine holds things, a step takes some in and gives some out;
if the account of every step is balanced, so is that of every run. -/

open scoped List

namespace Machine

variable {σ ι β : Type*} (m : Machine σ ι)

/-- Whatever a step takes in is given out by it or held afterwards. -/
def Balanced (held : σ → List β) (taken given : ι → σ → List β) : Prop :=
  ∀ s t a, m.Reachable s → m.step a s = some t →
    (held s ++ taken a s).Perm (given a s ++ held t)

variable {m} {held : σ → List β} {taken given : ι → σ → List β} {s t : σ}

theorem Balanced.run (h : m.Balanced held taken given) {labels : List ι} (hs : m.Reachable s)
    (hrun : m.run labels s = some t) :
    (held s ++ m.collect taken labels s).Perm (m.collect given labels s ++ held t) := by
  induction labels generalizing s with
  | nil =>
    cases hrun
    simp [collect]
  | cons a labels ih =>
    obtain ⟨u, hstep, hrest⟩ := run_cons hrun
    have hfirst := h s u a hs hstep
    have hlater := ih (.step hs trivial hstep) hrest
    rw [collect_cons taken labels hstep, collect_cons given labels hstep]
    calc held s ++ (taken a s ++ m.collect taken labels u)
      _ = (held s ++ taken a s) ++ m.collect taken labels u := (List.append_assoc _ _ _).symm
      _ ~ (given a s ++ held u) ++ m.collect taken labels u := hfirst.append_right _
      _ = given a s ++ (held u ++ m.collect taken labels u) := List.append_assoc _ _ _
      _ ~ given a s ++ (m.collect given labels u ++ held t) := hlater.append_left _
      _ = (given a s ++ m.collect given labels u) ++ held t := (List.append_assoc _ _ _).symm

end Machine

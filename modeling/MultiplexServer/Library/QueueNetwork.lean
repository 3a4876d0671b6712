import Mathlib.Data.List.Nodup
import Mathlib.Data.List.Range
import Mathlib.Logic.Function.Basic
import MultiplexServer.Library.Machine

/-! A network of queues: items arrive in the first queue, numbered in their order, and
every queue is served from its front. An item that is served joins the end of another
queue or leaves; none stays where it was or comes back to the first. -/

structure QueueNetwork (σ : Type*) where
  arrived : Nat
  queue : σ → List Nat

inductive QueueEvent (σ : Type*) where
  | arrive (n : Nat)
  | move (source target : σ)
  | leave (source : σ)

namespace QueueNetwork

variable {σ : Type*} [DecidableEq σ] (first : σ)

def serve (q : QueueNetwork σ) (source : σ) : Option (Nat × QueueNetwork σ) :=
  match q.queue source with
  | [] => none
  | item :: rest => some (item, { q with queue := Function.update q.queue source rest })

def append (q : QueueNetwork σ) (target : σ) (items : List Nat) : QueueNetwork σ :=
  { q with queue := Function.update q.queue target (q.queue target ++ items) }

def step : QueueEvent σ → QueueNetwork σ → Option (QueueNetwork σ)
  | .arrive n, q => some { q.append first (List.range' q.arrived n) with arrived := q.arrived + n }
  | .move source target, q =>
    if target = first ∨ target = source then none
    else (q.serve source).map fun served => served.2.append target [served.1]
  | .leave source, q => (q.serve source).map Prod.snd

def machine : Machine (QueueNetwork σ) (QueueEvent σ) := ⟨⟨0, fun _ => []⟩, step first⟩

variable {first}

theorem serve_eq_some {q q' : QueueNetwork σ} {source : σ} {item : Nat}
    (h : q.serve source = some (item, q')) :
    ∃ rest, q.queue source = item :: rest ∧
      q' = { q with queue := Function.update q.queue source rest } := by
  unfold serve at h
  cases hqueue : q.queue source with
  | nil =>
    simp only [hqueue] at h
    cases h
  | cons head rest =>
    simp only [hqueue] at h
    cases h
    exact ⟨rest, rfl, rfl⟩

theorem serve_of_queue {q : QueueNetwork σ} {source : σ} {item : Nat} {rest : List Nat}
    (h : q.queue source = item :: rest) :
    q.serve source = some (item, { q with queue := Function.update q.queue source rest }) := by
  unfold serve
  simp only [h]

/-- What waits in the first queue are the last arrivals, in their order. -/
def Latest (first : σ) (q : QueueNetwork σ) : Prop :=
  ∃ served ≤ q.arrived, q.queue first = List.range' served (q.arrived - served)

theorem Latest.serve {q q' : QueueNetwork σ} {source : σ} {item : Nat} (h : Latest first q)
    (hserve : q.serve source = some (item, q')) : Latest first q' := by
  obtain ⟨served, hserved, hqueue⟩ := h
  obtain ⟨rest, hsource, rfl⟩ := serve_eq_some hserve
  by_cases heq : first = source
  · subst heq
    rw [hqueue] at hsource
    obtain ⟨n, hn⟩ : ∃ n, q.arrived - served = n + 1 := by
      refine Nat.exists_eq_succ_of_ne_zero fun hzero => ?_
      rw [hzero] at hsource
      cases hsource
    rw [hn, List.range'_succ, List.cons.injEq] at hsource
    refine ⟨served + 1, by simp only; omega, ?_⟩
    have hlength : q.arrived - (served + 1) = n := by omega
    simp only [Function.update_self, hlength]
    exact hsource.2.symm
  · refine ⟨served, hserved, ?_⟩
    simp only [Function.update_of_ne heq]
    exact hqueue

theorem latest_of_reachable {q : QueueNetwork σ} (h : (machine first).Reachable q) :
    Latest first q := by
  refine h.invariant (I := Latest first) ⟨0, Nat.le_refl 0, rfl⟩
    fun q q' event _ hlatest hstep => ?_
  cases event with
  | arrive n =>
    cases hstep
    obtain ⟨served, hserved, hqueue⟩ := hlatest
    refine ⟨served, by simp only; omega, ?_⟩
    simp only [append, Function.update_self, hqueue]
    have hjoin : q.arrived = served + (q.arrived - served) := by omega
    rw [Nat.sub_add_comm hserved, ← List.range'_append_1, ← hjoin]
  | move source target =>
    simp only [machine, step] at hstep
    split_ifs at hstep with htarget
    obtain ⟨⟨item, served⟩, hserve, rfl⟩ := Option.map_eq_some_iff.mp hstep
    obtain ⟨n, hn, hqueue⟩ := hlatest.serve hserve
    refine ⟨n, hn, ?_⟩
    simp only [append, Function.update_of_ne fun heq => htarget (.inl heq.symm)]
    exact hqueue
  | leave source =>
    obtain ⟨⟨item, served⟩, hserve, rfl⟩ := Option.map_eq_some_iff.mp hstep
    exact hlatest.serve hserve

end QueueNetwork

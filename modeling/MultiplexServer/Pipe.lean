import Mathlib.Data.List.TakeWhile

/-! `c_pipe`: a queue of shared elements that is scanned from the front, together
with the flag that lets a caller skip an empty queue without its mutex. Whether the
mutex is obtained in time is an argument. The program pushes only pointers that it has
just been given, so there are no null elements to skip. -/

namespace MultiplexServer

structure Pipe (ρ : Type*) where
  elements : List ρ
  isEmpty : Bool
  deriving DecidableEq

namespace Pipe

variable {ρ σ : Type*}

def new : Pipe ρ := ⟨[], true⟩

def push (pipe : Pipe ρ) (element : ρ) : Pipe ρ := ⟨pipe.elements ++ [element], false⟩

def pushWithTimeoutN (pipe : Pipe ρ) (acquired : Bool) (pending : List ρ) : Bool × Pipe ρ :=
  if pending.isEmpty then (true, pipe)
  else if !acquired then (false, pipe)
  else
    let elements := pipe.elements ++ pending
    (true, ⟨elements, elements.isEmpty⟩)

def doPipeMaintenance (pipe : Pipe ρ) (acquired : Bool) (removePredicate : ρ → Bool) :
    Bool × Pipe ρ :=
  if pipe.isEmpty then (true, pipe)
  else if !acquired then (false, pipe)
  else if pipe.elements.isEmpty then (true, pipe)
  else
    let elements := pipe.elements.dropWhile removePredicate
    (true, ⟨elements, elements.isEmpty⟩)

/-- The first element that is not skipped and whose lock is obtained, with what
locking made of it. -/
def lockElementWithTimeout (pipe : Pipe ρ) (acquired : Bool) (skipPredicate : ρ → Bool)
    (lock : ρ → Option σ) : Option (ρ × σ) :=
  if pipe.isEmpty then none
  else if !acquired then none
  else if pipe.elements.isEmpty then none
  else pipe.elements.findSome? fun element =>
    if skipPredicate element then none else (lock element).map (element, ·)

theorem mem_push {pipe : Pipe ρ} {element other : ρ} :
    other ∈ (pipe.push element).elements ↔ other ∈ pipe.elements ∨ other = element := by
  simp [push]

theorem mem_pushWithTimeoutN {pipe : Pipe ρ} {acquired : Bool} {pending : List ρ} {other : ρ}
    (h : (pipe.pushWithTimeoutN acquired pending).1 = true) :
    other ∈ (pipe.pushWithTimeoutN acquired pending).2.elements ↔
      other ∈ pipe.elements ∨ other ∈ pending := by
  unfold pushWithTimeoutN at h ⊢
  split_ifs at h ⊢ with hpending hacquired
  · simp [List.isEmpty_iff.mp hpending]
  · simp

theorem mem_doPipeMaintenance {pipe : Pipe ρ} {acquired : Bool} {removePredicate : ρ → Bool}
    {other : ρ} :
    (other ∈ (pipe.doPipeMaintenance acquired removePredicate).2.elements →
      other ∈ pipe.elements) ∧
    (other ∈ pipe.elements → removePredicate other = false →
      other ∈ (pipe.doPipeMaintenance acquired removePredicate).2.elements) := by
  unfold doPipeMaintenance
  split_ifs
  · exact ⟨id, fun h _ => h⟩
  · exact ⟨id, fun h _ => h⟩
  · exact ⟨id, fun h _ => h⟩
  · refine ⟨fun h => (List.dropWhile_sublist _).subset h, fun hmem hkeep => ?_⟩
    have hsplit := List.takeWhile_append_dropWhile (p := removePredicate) (l := pipe.elements)
    rw [← hsplit, List.mem_append] at hmem
    rcases hmem with htaken | hleft
    · have := List.mem_takeWhile_imp htaken
      rw [hkeep] at this
      cases this
    · exact hleft

theorem lockElementWithTimeout_eq_some {pipe : Pipe ρ} {acquired : Bool}
    {skipPredicate : ρ → Bool} {lock : ρ → Option σ} {element : ρ} {locked : σ}
    (h : pipe.lockElementWithTimeout acquired skipPredicate lock = some (element, locked)) :
    element ∈ pipe.elements ∧ skipPredicate element = false ∧ lock element = some locked := by
  unfold lockElementWithTimeout at h
  split_ifs at h
  obtain ⟨found, hmem, hfound⟩ := List.exists_of_findSome?_eq_some h
  split_ifs at hfound with hskip
  obtain ⟨result, hlock, hpair⟩ := Option.map_eq_some_iff.mp hfound
  cases hpair
  exact ⟨hmem, by simpa using hskip, hlock⟩

end Pipe

end MultiplexServer

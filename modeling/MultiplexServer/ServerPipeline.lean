import Mathlib.Logic.Function.Basic
import MultiplexServer.Pipe
import MultiplexServer.ServerPipelineElement

/-! `c_server_pipeline`: four pipes that share their elements. An element is its
number in the order of creation; the pipes hold numbers, and what they refer to is
read from `elements`. -/

namespace MultiplexServer
open Strings

abbrev Ref := Nat

structure ServerPipeline where
  elements : Ref → ServerPipelineElement
  created : Nat
  pipe : Stage → Pipe Ref

namespace ServerPipeline

def new : ServerPipeline where
  elements _ := .new 0
  created := 0
  pipe _ := .new

def modify (p : ServerPipeline) (r : Ref) (f : ServerPipelineElement → ServerPipelineElement) :
    ServerPipeline :=
  { p with elements := Function.update p.elements r (f (p.elements r)) }

def push (p : ServerPipeline) (stage : Stage) (r : Ref) : ServerPipeline :=
  { p with pipe := Function.update p.pipe stage ((p.pipe stage).push r) }

def publishConnectN (p : ServerPipeline) (acquired : Bool) (pending : List Int) :
    Bool × ServerPipeline :=
  let refs := List.range' p.created pending.length
  let published := (p.pipe .request).pushWithTimeoutN acquired refs
  if published.1 then
    (true, {
      elements := fun r =>
        if p.created ≤ r then (pending[r - p.created]?.map .new).getD (p.elements r)
        else p.elements r
      created := p.created + pending.length
      pipe := Function.update p.pipe .request published.2 })
  else (false, p)

def getNext (p : ServerPipeline) (stage : Stage) (objectId : Nat) (acquired : Bool) :
    Option (Ref × ServerPipeline) :=
  let found := (p.pipe stage).lockElementWithTimeout acquired
    (fun r => (p.elements r).completedPredicate stage)
    (fun r => (p.elements r).lockWithOwnerLockable objectId)
  found.map fun (r, e) => (r, p.modify r fun _ => e)

def getNextRequest (p : ServerPipeline) := p.getNext .request
def getNextDatamodel (p : ServerPipeline) := p.getNext .datamodel
def getNextResponse (p : ServerPipeline) := p.getNext .response
def getNextCompleted (p : ServerPipeline) := p.getNext .completed

def publishTo (stage : Stage) (mark : ServerPipelineElement → ServerPipelineElement)
    (p : ServerPipeline) (objectId : Nat) (r : Ref) : Bool × ServerPipeline :=
  if (p.elements r).lockedById ≠ objectId then (false, p)
  else (true, (p.push stage r).modify r mark)

def publishToDatamodelPipe := publishTo .datamodel .markAsRequestCompleted
def publishToResponsePipe := publishTo .response .markAsDatamodelCompleted
def publishToCompletedPipe := publishTo .completed .markAsResponseCompleted

def doPipelineMaintenance (p : ServerPipeline) (acquired : Stage → Bool) : ServerPipeline :=
  { p with pipe := fun stage =>
      ((p.pipe stage).doPipeMaintenance (acquired stage)
        fun r => (p.elements r).completedPredicate stage).2 }

/-- Present in the pipe and not skipped by its predicate. -/
def Eligible (p : ServerPipeline) (stage : Stage) (r : Ref) : Prop :=
  r ∈ (p.pipe stage).elements ∧ (p.elements r).completedPredicate stage = false

instance (p : ServerPipeline) (stage : Stage) (r : Ref) : Decidable (p.Eligible stage r) :=
  inferInstanceAs (Decidable (_ ∧ _))

/-- What an iteration's `publish_to_*` leaves: whether it answered true, and whether
the callback that would mark the stage as failed has been cancelled. -/
structure Published where
  pipeline : ServerPipeline
  ok : Bool
  cancelled : Bool

def publishToPipeNotOk (p : ServerPipeline) (objectId : Nat) (r : Ref) : Published :=
  let published := (p.modify r .markAsCloseConnectionRequired).publishToCompletedPipe objectId r
  ⟨published.2, published.1, false⟩

/-- The callbacks at the end of the scope, in the reverse order of their making:
the stage's failure unless cancelled, then the unlock. -/
def Published.leave (published : Published) (r : Ref)
    (markAsFailed : ServerPipelineElement → ServerPipelineElement) : ServerPipeline :=
  let p := published.pipeline
  let p := if published.cancelled then p else p.modify r markAsFailed
  p.modify r .unlock

section Fields

variable (p : ServerPipeline) (r : Ref) (f : ServerPipelineElement → ServerPipelineElement)
  (stage : Stage)

@[simp] theorem modify_created : (p.modify r f).created = p.created := rfl
@[simp] theorem modify_pipe : (p.modify r f).pipe = p.pipe := rfl
@[simp] theorem modify_elements :
    (p.modify r f).elements = Function.update p.elements r (f (p.elements r)) := rfl
@[simp] theorem push_created : (p.push stage r).created = p.created := rfl
@[simp] theorem push_elements : (p.push stage r).elements = p.elements := rfl
@[simp] theorem push_pipe :
    (p.push stage r).pipe = Function.update p.pipe stage ((p.pipe stage).push r) := rfl

theorem mem_push {stage t : Stage} {x : Ref} :
    x ∈ ((p.push stage r).pipe t).elements ↔ t = stage ∧ x = r ∨ x ∈ (p.pipe t).elements := by
  by_cases ht : t = stage
  · subst ht
    simp [Pipe.mem_push, or_comm]
  · simp [ht]

theorem modify_modify (g : ServerPipelineElement → ServerPipelineElement) :
    (p.modify r f).modify r g = p.modify r (g ∘ f) := by
  simp [modify]

theorem push_modify : (p.modify r f).push stage r = (p.push stage r).modify r f := rfl

theorem modify_congr {f g : ServerPipelineElement → ServerPipelineElement}
    (h : f (p.elements r) = g (p.elements r)) : p.modify r f = p.modify r g := by
  rw [modify, modify, h]

end Fields

theorem getNext_eq_some {p q : ServerPipeline} {stage : Stage} {objectId : Nat} {acquired : Bool}
    {r : Ref} (h : p.getNext stage objectId acquired = some (r, q)) :
    p.Eligible stage r ∧ (p.elements r).isLocked = false ∧
      q = p.modify r (.lockedBy objectId) := by
  obtain ⟨⟨found, locked⟩, hfound, hpair⟩ := Option.map_eq_some_iff.mp h
  cases hpair
  obtain ⟨hmem, hskip, hlock⟩ := Pipe.lockElementWithTimeout_eq_some hfound
  unfold ServerPipelineElement.lockWithOwnerLockable at hlock
  split_ifs at hlock with hlocked
  cases hlock
  exact ⟨⟨hmem, hskip⟩, by simpa using hlocked, rfl⟩

section PublishConnectN

variable {p : ServerPipeline} {acquired : Bool} {pending : List Int}

theorem publishConnectN_created (h : (p.publishConnectN acquired pending).1 = true) :
    (p.publishConnectN acquired pending).2.created = p.created + pending.length := by
  simp only [publishConnectN] at h ⊢
  split_ifs at h ⊢
  rfl

theorem publishConnectN_pipe (h : (p.publishConnectN acquired pending).1 = true) :
    (p.publishConnectN acquired pending).2.pipe = Function.update p.pipe .request
      ((p.pipe .request).pushWithTimeoutN acquired (List.range' p.created pending.length)).2 := by
  simp only [publishConnectN] at h ⊢
  split_ifs at h ⊢
  rfl

theorem publishConnectN_refused (h : (p.publishConnectN acquired pending).1 = false) :
    (p.publishConnectN acquired pending).2 = p := by
  simp only [publishConnectN] at h ⊢
  split_ifs at h ⊢
  rfl

theorem publishConnectN_old (h : (p.publishConnectN acquired pending).1 = true) {r : Ref}
    (hr : r < p.created) :
    (p.publishConnectN acquired pending).2.elements r = p.elements r := by
  simp only [publishConnectN] at h ⊢
  split_ifs at h ⊢
  exact if_neg (Nat.not_le.mpr hr)

theorem publishConnectN_new (h : (p.publishConnectN acquired pending).1 = true) {i : Nat}
    {fd : Int} (hfd : pending[i]? = some fd) :
    (p.publishConnectN acquired pending).2.elements (p.created + i) = .new fd := by
  simp only [publishConnectN] at h ⊢
  split_ifs at h ⊢
  simp [hfd]

theorem publishConnectN_elements (h : (p.publishConnectN acquired pending).1 = true) (r : Ref) :
    (p.publishConnectN acquired pending).2.elements r = p.elements r ∨
      p.created ≤ r ∧ ∃ fd, pending[r - p.created]? = some fd ∧
        (p.publishConnectN acquired pending).2.elements r = .new fd := by
  by_cases hr : r < p.created
  · exact .inl (publishConnectN_old h hr)
  · cases hfd : pending[r - p.created]? with
    | none =>
      simp only [publishConnectN] at h ⊢
      split_ifs at h ⊢
      simp [hfd]
    | some fd =>
      have hnew := publishConnectN_new h hfd
      rw [Nat.add_sub_cancel' (Nat.not_lt.mp hr)] at hnew
      exact .inr ⟨Nat.not_lt.mp hr, fd, rfl, hnew⟩

theorem mem_publishConnectN (h : (p.publishConnectN acquired pending).1 = true) (stage : Stage)
    (r : Ref) :
    r ∈ ((p.publishConnectN acquired pending).2.pipe stage).elements ↔
      r ∈ (p.pipe stage).elements ∨
        stage = .request ∧ p.created ≤ r ∧ r < p.created + pending.length := by
  simp only [publishConnectN] at h ⊢
  split_ifs at h ⊢ with hpublished
  by_cases hstage : stage = .request
  · subst hstage
    simp [Pipe.mem_pushWithTimeoutN hpublished]
  · simp [hstage]

end PublishConnectN

theorem publishTo_owned {p : ServerPipeline} {objectId : Nat} {r : Ref}
    (h : (p.elements r).lockedById = objectId) (stage : Stage)
    (mark : ServerPipelineElement → ServerPipelineElement) :
    publishTo stage mark p objectId r = (true, (p.push stage r).modify r mark) :=
  if_neg (not_not_intro h)

theorem eligible_doPipelineMaintenance (p : ServerPipeline) (acquired : Stage → Bool)
    (stage : Stage) (r : Ref) :
    (p.doPipelineMaintenance acquired).Eligible stage r ↔ p.Eligible stage r := by
  have hmem := @Pipe.mem_doPipeMaintenance Ref (p.pipe stage) (acquired stage)
    (fun r => (p.elements r).completedPredicate stage) r
  constructor
  · rintro ⟨hin, hskip⟩
    exact ⟨hmem.1 hin, hskip⟩
  · rintro ⟨hin, hskip⟩
    exact ⟨hmem.2 hin hskip, hskip⟩

end ServerPipeline

end MultiplexServer

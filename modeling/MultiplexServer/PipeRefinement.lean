import MultiplexServer.Library.PrunedList
import MultiplexServer.ServerPipeline

/-! One pipe and the list of everything that was ever pushed into it. The pipe drops
finished elements from its front and keeps a flag for the empty queue; a caller that
obtains an element cannot tell it from the full list. -/

namespace MultiplexServer
open ServerPipelineElement

/-- The flags that the predicates read are only raised. The rest may change. -/
structure FlagsRise (e e' : ServerPipelineElement) : Prop where
  requestFailed : e.isRequestFailed = true → e'.isRequestFailed = true
  requestCompleted : e.isRequestCompleted = true → e'.isRequestCompleted = true
  datamodelFailed : e.isDatamodelFailed = true → e'.isDatamodelFailed = true
  datamodelCompleted : e.isDatamodelCompleted = true → e'.isDatamodelCompleted = true
  responseFailed : e.isResponseFailed = true → e'.isResponseFailed = true
  responseCompleted : e.isResponseCompleted = true → e'.isResponseCompleted = true
  completedCompleted : e.isCompletedCompleted = true → e'.isCompletedCompleted = true

/-- What others do to the elements between two calls: they take and release locks,
write texts and raise flags. -/
structure Interference where
  change : Ref → ServerPipelineElement → ServerPipelineElement
  rise : ∀ r e, FlagsRise e (change r e)

structure SharedPipe where
  pipe : Pipe Ref
  elements : Ref → ServerPipelineElement

inductive PipeCall where
  | push (element : Ref)
  | pushWithTimeoutN (acquired : Bool) (pending : List Ref)
  | lockElementWithTimeout (objectId : Nat) (acquired : Bool)
  | doPipeMaintenance (acquired : Bool)
  | between (others : Interference)

inductive PipeAnswer where
  | returned (ok : Bool)
  | element (result : Option Ref)
  | nothing
  deriving DecidableEq

namespace SharedPipe

def start (elements : Ref → ServerPipelineElement) : SharedPipe := ⟨.new, elements⟩

def skip (s : SharedPipe) (stage : Stage) (r : Ref) : Bool :=
  (s.elements r).completedPredicate stage

def free (s : SharedPipe) (stage : Stage) (r : Ref) : Bool :=
  !s.skip stage r && !(s.elements r).isLocked

def lock (s : SharedPipe) (objectId : Nat) (r : Ref) : SharedPipe :=
  { s with elements := Function.update s.elements r ((s.elements r).lockedBy objectId) }

def call (stage : Stage) (s : SharedPipe) : PipeCall → PipeAnswer × SharedPipe
  | .push element => (.returned true, { s with pipe := s.pipe.push element })
  | .pushWithTimeoutN acquired pending =>
    let pushed := s.pipe.pushWithTimeoutN acquired pending
    (.returned pushed.1, { s with pipe := pushed.2 })
  | .lockElementWithTimeout objectId acquired =>
    let found := s.pipe.lockElementWithTimeout acquired (s.skip stage)
      fun r => (s.elements r).lockWithOwnerLockable objectId
    match found with
    | none => (.element none, s)
    | some (r, e) => (.element (some r), { s with elements := Function.update s.elements r e })
  | .doPipeMaintenance acquired =>
    let pruned := s.pipe.doPipeMaintenance acquired (s.skip stage)
    (.returned pruned.1, { s with pipe := pruned.2 })
  | .between others => (.nothing, { s with elements := fun r => others.change r (s.elements r) })

def run (stage : Stage) : List PipeCall → SharedPipe → SharedPipe
  | [], s => s
  | c :: calls, s => run stage calls (s.call stage c).2

end SharedPipe

namespace PipeCall

def isMaintenance : PipeCall → Bool
  | .doPipeMaintenance _ => true
  | _ => false

def pushed : PipeCall → List Ref
  | .push element => [element]
  | .pushWithTimeoutN acquired pending => if acquired then pending else []
  | .lockElementWithTimeout _ _ => []
  | .doPipeMaintenance _ => []
  | .between _ => []

end PipeCall

namespace SharedPipe
open PipeCall

variable {stage : Stage} {s t : SharedPipe} {history : List Ref}

def everPushed (calls : List PipeCall) : List Ref := calls.flatMap pushed

def answers (stage : Stage) : List PipeCall → SharedPipe → List PipeAnswer
  | [], _ => []
  | c :: calls, s =>
    let rest := answers stage calls (s.call stage c).2
    if c.isMaintenance then rest else (s.call stage c).1 :: rest

/-! ## The predicates are monotone -/

theorem isRequestCompletedPredicate_rise {e e' : ServerPipelineElement} (h : FlagsRise e e')
    {ignoreCompleted : Bool} (hskip : e.isRequestCompletedPredicate ignoreCompleted = true) :
    e'.isRequestCompletedPredicate ignoreCompleted = true := by
  simp only [isRequestCompletedPredicate, Bool.or_eq_true, Bool.and_eq_true] at hskip ⊢
  exact hskip.imp (And.imp_right h.requestCompleted) h.requestFailed

theorem isDatamodelCompletedPredicate_rise {e e' : ServerPipelineElement} (h : FlagsRise e e')
    {ignoreCompleted : Bool} (hskip : e.isDatamodelCompletedPredicate ignoreCompleted = true) :
    e'.isDatamodelCompletedPredicate ignoreCompleted = true := by
  simp only [isDatamodelCompletedPredicate, Bool.or_eq_true, Bool.and_eq_true] at hskip ⊢
  exact hskip.imp (Or.imp (And.imp_right h.datamodelCompleted) h.datamodelFailed)
    (isRequestCompletedPredicate_rise h)

theorem isResponseCompletedPredicate_rise {e e' : ServerPipelineElement} (h : FlagsRise e e')
    {ignoreCompleted : Bool} (hskip : e.isResponseCompletedPredicate ignoreCompleted = true) :
    e'.isResponseCompletedPredicate ignoreCompleted = true := by
  simp only [isResponseCompletedPredicate, Bool.or_eq_true, Bool.and_eq_true] at hskip ⊢
  exact hskip.imp (Or.imp (And.imp_right h.responseCompleted) h.responseFailed)
    (isDatamodelCompletedPredicate_rise h)

theorem completedPredicate_rise {e e' : ServerPipelineElement} (h : FlagsRise e e')
    (stage : Stage) (hskip : e.completedPredicate stage = true) :
    e'.completedPredicate stage = true := by
  cases stage with
  | request => exact isRequestCompletedPredicate_rise h hskip
  | datamodel => exact isDatamodelCompletedPredicate_rise h hskip
  | response => exact isResponseCompletedPredicate_rise h hskip
  | completed => exact h.completedCompleted hskip

theorem skip_lock (s : SharedPipe) (objectId : Nat) (r x : Ref) :
    (s.lock objectId r).skip stage x = s.skip stage x := by
  by_cases hx : x = r
  · subst hx
    simp only [skip, lock, Function.update_self]
    cases stage <;> rfl
  · simp only [skip, lock, Function.update_of_ne hx]

/-! ## The pipe represents the list -/

structure Represents (stage : Stage) (history : List Ref) (s : SharedPipe) : Prop where
  kept : PrunedFrom (s.skip stage) history s.pipe.elements
  flag : s.pipe.isEmpty = s.pipe.elements.isEmpty

theorem not_free_of_skip {x : Ref} (h : s.skip stage x = true) : s.free stage x = false := by
  simp [free, h]

theorem findSome?_lock (s : SharedPipe) (objectId : Nat) (elements : List Ref) :
    (elements.findSome? fun r =>
        if s.skip stage r then none
        else ((s.elements r).lockWithOwnerLockable objectId).map (r, ·)) =
      (elements.find? (s.free stage)).map fun r => (r, (s.elements r).lockedBy objectId) := by
  induction elements with
  | nil => rfl
  | cons r elements ih =>
    rw [List.findSome?_cons, List.find?_cons, ih]
    cases hskip : s.skip stage r <;> cases hlocked : (s.elements r).isLocked <;>
      simp [free, lockWithOwnerLockable, hskip, hlocked]

/-- The specification of a call for an element, on the list of everything pushed. -/
def take (stage : Stage) (history : List Ref) (objectId : Nat) (s : SharedPipe) :
    PipeAnswer × SharedPipe :=
  match history.find? (s.free stage) with
  | none => (.element none, s)
  | some r => (.element (some r), s.lock objectId r)

theorem Represents.find?_eq_none (h : Represents stage history s)
    (hempty : s.pipe.isEmpty = true) : history.find? (s.free stage) = none := by
  rw [h.kept.find?_eq fun _ => not_free_of_skip]
  rw [h.flag] at hempty
  rw [List.isEmpty_iff.mp hempty]
  rfl

theorem Represents.call_lock (h : Represents stage history s) (objectId : Nat) (acquired : Bool) :
    s.call stage (.lockElementWithTimeout objectId acquired) =
      if acquired then s.take stage history objectId else (.element none, s) := by
  cases hempty : s.pipe.isEmpty with
  | true =>
    have hnone : s.take stage history objectId = (.element none, s) := by
      simp only [take, h.find?_eq_none hempty]
    simp only [call, Pipe.lockElementWithTimeout, hempty, if_true, hnone, ite_self]
  | false =>
    have helements : s.pipe.elements.isEmpty = false := h.flag.symm.trans hempty
    cases acquired with
    | false => simp [call, Pipe.lockElementWithTimeout, hempty]
    | true =>
      simp only [call, Pipe.lockElementWithTimeout, hempty, helements, findSome?_lock, take,
        h.kept.find?_eq fun _ => not_free_of_skip, Bool.false_eq_true, if_false, Bool.not_true,
        if_true]
      cases s.pipe.elements.find? (s.free stage) with
      | none => rfl
      | some r => rfl

theorem represents_start (stage : Stage) (elements : Ref → ServerPipelineElement) :
    Represents stage [] (start elements) where
  kept := .refl _ _
  flag := rfl

theorem Represents.lock (h : Represents stage history s) (objectId : Nat) (r : Ref) :
    Represents stage history (s.lock objectId r) where
  kept := h.kept.mono fun x hx => (skip_lock s objectId r x).trans hx
  flag := h.flag

theorem Represents.call (h : Represents stage history s) (c : PipeCall) :
    Represents stage (history ++ c.pushed) (s.call stage c).2 := by
  cases c with
  | push element =>
    refine ⟨h.kept.append [element], ?_⟩
    simp [SharedPipe.call, Pipe.push]
  | pushWithTimeoutN acquired pending =>
    simp only [SharedPipe.call, Pipe.pushWithTimeoutN, pushed]
    by_cases hpending : pending = []
    · subst hpending
      simpa using h
    · cases acquired with
      | false => simpa [hpending] using h
      | true =>
        refine ⟨?_, ?_⟩ <;> simp only [List.isEmpty_iff, hpending, if_false, Bool.not_true,
          Bool.false_eq_true, if_true]
        exact h.kept.append pending
  | lockElementWithTimeout objectId acquired =>
    rw [h.call_lock, pushed, List.append_nil]
    cases acquired with
    | false => exact h
    | true =>
      simp only [if_true, take]
      cases history.find? (s.free stage) with
      | none => exact h
      | some r => exact h.lock objectId r
  | doPipeMaintenance acquired =>
    rw [pushed, List.append_nil]
    simp only [SharedPipe.call, Pipe.doPipeMaintenance]
    split_ifs
    · exact h
    · exact h
    · exact h
    · exact ⟨h.kept.dropWhile, rfl⟩
  | between others =>
    rw [pushed, List.append_nil]
    exact ⟨h.kept.mono fun x hx => completedPredicate_rise (others.rise x _) stage hx, h.flag⟩

theorem Represents.run (h : Represents stage history s) (calls : List PipeCall) :
    Represents stage (history ++ everPushed calls) (s.run stage calls) := by
  induction calls generalizing history s with
  | nil => simpa [everPushed, SharedPipe.run] using h
  | cons c calls ih =>
    have hrest := ih (h.call c)
    rwa [List.append_assoc] at hrest

/-! ## Maintenance is not observed -/

theorem call_congr (hs : Represents stage history s) (ht : Represents stage history t)
    (helements : s.elements = t.elements) {c : PipeCall} (hc : c.isMaintenance = false) :
    (s.call stage c).1 = (t.call stage c).1 ∧
      (s.call stage c).2.elements = (t.call stage c).2.elements := by
  cases c with
  | push element => exact ⟨rfl, helements⟩
  | pushWithTimeoutN acquired pending =>
    simp only [SharedPipe.call, Pipe.pushWithTimeoutN]
    split_ifs <;> exact ⟨rfl, helements⟩
  | lockElementWithTimeout objectId acquired =>
    have hfree : s.free stage = t.free stage := by
      funext r
      simp only [free, skip, helements]
    rw [hs.call_lock, ht.call_lock]
    simp only [take, hfree]
    cases acquired with
    | false => exact ⟨rfl, helements⟩
    | true =>
      cases history.find? (t.free stage) with
      | none => exact ⟨rfl, helements⟩
      | some r => exact ⟨rfl, by simp only [lock, helements, if_true]⟩
  | doPipeMaintenance acquired => cases hc
  | between others => exact ⟨rfl, by simp only [SharedPipe.call, helements]⟩

theorem answers_without_maintenance (hs : Represents stage history s)
    (ht : Represents stage history t) (helements : s.elements = t.elements)
    (calls : List PipeCall) :
    t.answers stage (calls.filter (!·.isMaintenance)) = s.answers stage calls := by
  induction calls generalizing history s t with
  | nil => rfl
  | cons c calls ih =>
    cases hc : c.isMaintenance with
    | true =>
      rw [List.filter_cons_of_neg (by simp [hc]), answers]
      simp only [hc, if_true]
      have hpushed : c.pushed = [] := by cases c <;> first | rfl | cases hc
      have hsame : (s.call stage c).2.elements = s.elements := by cases c <;> first | rfl | cases hc
      have hnext := hs.call c
      rw [hpushed, List.append_nil] at hnext
      exact ih hnext ht (hsame.trans helements)
    | false =>
      obtain ⟨hanswer, hsame⟩ := call_congr hs ht helements hc
      rw [List.filter_cons_of_pos (by simp [hc]), answers, answers]
      simp only [hc, Bool.false_eq_true, if_false, hanswer]
      rw [ih (hs.call c) (ht.call c) hsame]

/-- After any calls: who asks for an element, and obtains the mutex or meets the flag,
is handed the earliest free element that was ever pushed; maintenance changes no
answer; and the unfinished elements are all there in the order they were pushed. -/
theorem pipe_refines_history (stage : Stage) (elements : Ref → ServerPipelineElement)
    (calls : List PipeCall) :
    (∀ objectId acquired,
      ((start elements).run stage calls).call stage (.lockElementWithTimeout objectId acquired) =
        if acquired || ((start elements).run stage calls).pipe.isEmpty then
          ((start elements).run stage calls).take stage (everPushed calls) objectId
        else (.element none, (start elements).run stage calls)) ∧
    (start elements).answers stage (calls.filter (!·.isMaintenance)) =
      (start elements).answers stage calls ∧
    (everPushed calls).filter (!((start elements).run stage calls).skip stage ·) =
      ((start elements).run stage calls).pipe.elements.filter
        (!((start elements).run stage calls).skip stage ·) := by
  have hstart := represents_start stage elements
  have h := hstart.run calls
  rw [List.nil_append] at h
  generalize (start elements).run stage calls = s at h
  refine ⟨fun objectId acquired => ?_, answers_without_maintenance hstart hstart rfl calls,
    h.kept.filter_eq fun _ hx => by simp [hx]⟩
  rw [h.call_lock]
  cases acquired with
  | true => rfl
  | false =>
    cases hempty : s.pipe.isEmpty with
    | false => rfl
    | true => simp [take, h.find?_eq_none hempty]

/-! ## The pipes of the pipeline are called in this way -/

def ofPipeline (p : ServerPipeline) (stage : Stage) : SharedPipe := ⟨p.pipe stage, p.elements⟩

theorem call_getNext (p : ServerPipeline) (stage : Stage) (objectId : Nat) (acquired : Bool) :
    (ofPipeline p stage).call stage (.lockElementWithTimeout objectId acquired) =
      ((p.getNext stage objectId acquired).map fun found =>
        (PipeAnswer.element (some found.1), ofPipeline found.2 stage)).getD
          (.element none, ofPipeline p stage) := by
  have hskip : (fun r => (p.elements r).completedPredicate stage) =
      (ofPipeline p stage).skip stage := rfl
  simp only [call, ServerPipeline.getNext, hskip]
  change _ = Option.getD (Option.map _ (Option.map _
    ((ofPipeline p stage).pipe.lockElementWithTimeout acquired ((ofPipeline p stage).skip stage)
      fun r => ((ofPipeline p stage).elements r).lockWithOwnerLockable objectId))) _
  cases (ofPipeline p stage).pipe.lockElementWithTimeout acquired ((ofPipeline p stage).skip stage)
      fun r => ((ofPipeline p stage).elements r).lockWithOwnerLockable objectId with
  | none => rfl
  | some found => rfl

theorem call_doPipelineMaintenance (p : ServerPipeline) (acquired : Stage → Bool) (stage : Stage) :
    ((ofPipeline p stage).call stage (.doPipeMaintenance (acquired stage))).2 =
      ofPipeline (p.doPipelineMaintenance acquired) stage := rfl

end SharedPipe

end MultiplexServer

import MultiplexServer.Library.PrunedList
import MultiplexServer.Library.QueueNetwork
import MultiplexServer.ServerDescriptors
import MultiplexServer.ServerMaintenance
import MultiplexServer.ServerSequence

/-! The pipes as queues. A pipe is scanned and never popped; what is left of it when the
skipped elements are taken out behaves as a queue that is served from its front, and the
server refines a network of such queues. -/

namespace MultiplexServer
open ServerPipelineElement

namespace Pipe

variable {ρ σ : Type*}

theorem lockElementWithTimeout_free {pipe : Pipe ρ} (hflag : pipe.isEmpty = pipe.elements.isEmpty)
    {skipPredicate : ρ → Bool} {lock : ρ → Option σ} {locked : ρ → σ}
    (hfree : ∀ element ∈ pipe.elements, lock element = some (locked element)) :
    pipe.lockElementWithTimeout true skipPredicate lock =
      (pipe.elements.filter fun element => !skipPredicate element).head?.map
        fun element => (element, locked element) := by
  have hfirst : (pipe.elements.findSome? fun element =>
      if skipPredicate element then none else (lock element).map (element, ·)) =
      (pipe.elements.filter fun element => !skipPredicate element).head?.map
        fun element => (element, locked element) := by
    clear hflag
    revert hfree
    induction pipe.elements with
    | nil => exact fun _ => rfl
    | cons element rest ih =>
      intro hfree
      have hrest := ih fun other hother => hfree other (List.mem_cons_of_mem element hother)
      rw [List.findSome?_cons, List.filter_cons]
      cases hskip : skipPredicate element with
      | true => simpa using hrest
      | false => simp [hfree element List.mem_cons_self]
  unfold lockElementWithTimeout
  rw [hflag, hfirst]
  cases hempty : pipe.elements.isEmpty with
  | true =>
    rw [List.isEmpty_iff.mp hempty]
    rfl
  | false => rfl

theorem pushWithTimeoutN_elements {pipe : Pipe ρ} {acquired : Bool} {pending : List ρ}
    (h : (pipe.pushWithTimeoutN acquired pending).1 = true) :
    (pipe.pushWithTimeoutN acquired pending).2.elements = pipe.elements ++ pending := by
  unfold pushWithTimeoutN at h ⊢
  split_ifs at h ⊢ with hpending hacquired
  · rw [List.isEmpty_iff.mp hpending, List.append_nil]
  · rfl

theorem pushWithTimeoutN_flagged {pipe : Pipe ρ} (hflag : pipe.isEmpty = pipe.elements.isEmpty)
    (acquired : Bool) (pending : List ρ) :
    (pipe.pushWithTimeoutN acquired pending).2.isEmpty =
      (pipe.pushWithTimeoutN acquired pending).2.elements.isEmpty := by
  unfold pushWithTimeoutN
  split_ifs
  · exact hflag
  · exact hflag
  · rfl

theorem doPipeMaintenance_flagged {pipe : Pipe ρ} (hflag : pipe.isEmpty = pipe.elements.isEmpty)
    (acquired : Bool) (removePredicate : ρ → Bool) :
    (pipe.doPipeMaintenance acquired removePredicate).2.isEmpty =
      (pipe.doPipeMaintenance acquired removePredicate).2.elements.isEmpty := by
  unfold doPipeMaintenance
  split_ifs
  · exact hflag
  · exact hflag
  · exact hflag
  · rfl

theorem doPipeMaintenance_elements {pipe : Pipe ρ}
    (hflag : pipe.isEmpty = pipe.elements.isEmpty) (acquired : Bool) (removePredicate : ρ → Bool) :
    (pipe.doPipeMaintenance acquired removePredicate).2.elements =
      if acquired then pipe.elements.dropWhile removePredicate else pipe.elements := by
  unfold doPipeMaintenance
  rw [hflag]
  cases hempty : pipe.elements.isEmpty with
  | true =>
    have hnil := List.isEmpty_iff.mp hempty
    cases acquired <;> simp [hnil]
  | false => cases acquired <;> rfl

end Pipe

namespace ServerPipeline

def queue (p : ServerPipeline) (stage : Stage) : List Ref :=
  (p.pipe stage).elements.filter fun r => !(p.elements r).completedPredicate stage

theorem mem_queue {p : ServerPipeline} {stage : Stage} {r : Ref} :
    r ∈ p.queue stage ↔ p.Eligible stage r := by
  simp [queue, Eligible]

/-- An element stands in a pipe once at most, what is skipped stands before what is not,
and the flag is right. -/
structure Queued (p : ServerPipeline) : Prop where
  nodup : ∀ stage, (p.pipe stage).elements.Nodup
  suffix : ∀ stage, p.queue stage <:+ (p.pipe stage).elements
  flagged : ∀ stage, (p.pipe stage).isEmpty = (p.pipe stage).elements.isEmpty

theorem queued_new : Queued .new where
  nodup _ := List.nodup_nil
  suffix _ := List.suffix_refl []
  flagged _ := rfl

theorem Queued.nodup_queue {p : ServerPipeline} (h : Queued p) (stage : Stage) :
    (p.queue stage).Nodup :=
  (h.nodup stage).filter _

end ServerPipeline

open ServerPipeline

variable {cfg : ServerConfig} {p : ServerPipeline} {log : Ref → List Visit}

theorem Life.place_of_nil {fd : Int} {visits : List Visit} {e : ServerPipelineElement}
    (h : Life cfg fd visits e) (hnil : visits = []) : e.place = some .request := by
  cases h with
  | created => rfl
  | read | compute | write | complete => exact absurd hnil (by simp)

theorem Sited.getNext_eq (h : Sited cfg p log) (hq : Queued p) (stage : Stage) (objectId : Nat) :
    p.getNext stage objectId true =
      (p.queue stage).head?.map fun r => (r, p.modify r (.lockedBy objectId)) := by
  have hfree : ∀ r ∈ (p.pipe stage).elements,
      (p.elements r).lockWithOwnerLockable objectId = some ((p.elements r).lockedBy objectId) := by
    intro r hr
    have hlocked := (h.life r (h.known stage r hr)).free.1
    simp [lockWithOwnerLockable, hlocked]
  rw [ServerPipeline.getNext, Pipe.lockElementWithTimeout_free (hq.flagged stage) hfree,
    Option.map_map]
  rfl

theorem getNext_not_acquired (p : ServerPipeline) (stage : Stage) (objectId : Nat) :
    p.getNext stage objectId false = none := by
  unfold ServerPipeline.getNext Pipe.lockElementWithTimeout
  cases (p.pipe stage).isEmpty <;> rfl

theorem Sited.queue_of_getNext (h : Sited cfg p log) (hq : Queued p) {stage : Stage}
    {objectId : Nat} {acquired : Bool} {r : Ref} {q : ServerPipeline}
    (hnext : p.getNext stage objectId acquired = some (r, q)) :
    ∃ rest, p.queue stage = r :: rest := by
  cases acquired with
  | false =>
    rw [getNext_not_acquired] at hnext
    cases hnext
  | true =>
    rw [h.getNext_eq hq] at hnext
    obtain ⟨first, hfirst, hpair⟩ := Option.map_eq_some_iff.mp hnext
    cases hpair
    exact List.head?_eq_some_iff.mp hfirst

theorem queue_modify {f : ServerPipelineElement → ServerPipelineElement} {r : Ref} {stage : Stage}
    (hskip : r ∈ (p.pipe stage).elements → (f (p.elements r)).completedPredicate stage = true) :
    (p.modify r f).queue stage = (p.queue stage).filter (· ≠ r) := by
  unfold queue
  rw [modify_pipe, List.filter_filter]
  apply List.filter_congr
  intro x hx
  by_cases hxr : x = r
  · subst hxr
    simp [hskip hx]
  · simp [hxr]

theorem filter_ne_cons {r : Ref} {rest : List Ref} (h : (r :: rest).Nodup) :
    (r :: rest).filter (· ≠ r) = rest := by
  have hr := (List.nodup_cons.mp h).1
  rw [List.filter_cons_of_neg (by simp), List.filter_eq_self]
  intro x hx
  simpa using fun heq : x = r => hr (heq ▸ hx)

theorem filter_ne_self {r : Ref} {refs : List Ref} (h : r ∉ refs) :
    refs.filter (· ≠ r) = refs := by
  rw [List.filter_eq_self]
  intro x hx
  simpa using fun heq : x = r => h (heq ▸ hx)

theorem Sited.not_mem_later (h : Sited cfg p log) {r : Ref} {stage target : Stage}
    (hplace : (p.elements r).place = some stage) (hlater : stage.rank < target.rank) :
    r ∉ (p.pipe target).elements := by
  intro hmem
  have hbehind := h.behind target r hmem
  rw [rank_of_place hplace] at hbehind
  omega

theorem Sited.queue_advance (h : Sited cfg p log) (hq : Queued p) {r : Ref} {stage target : Stage}
    (hr : r < p.created) (hplace : (p.elements r).place = some stage) {visits : List Visit}
    {f : ServerPipelineElement → ServerPipelineElement}
    (hlife : Life cfg (p.elements r).clientFd visits (f (p.elements r)))
    (htarget : (f (p.elements r)).place = some target) (hlater : stage.rank < target.rank)
    {rest : List Ref} (hfront : p.queue stage = r :: rest) :
    ((p.push target r).modify r f).queue =
      Function.update (Function.update p.queue stage rest) target (p.queue target ++ [r]) := by
  have hne : stage ≠ target := fun heq => Nat.lt_irrefl _ (heq ▸ hlater)
  have habsent := h.not_mem_later hplace hlater
  funext t
  by_cases ht : t = target
  · subst ht
    have hkept : (f (p.elements r)).completedPredicate t = false := by
      rw [hlife.completedPredicate_eq_false_iff, rank_of_place htarget]
    have hsame : ((p.pipe t).elements.filter fun x =>
        !(((p.push t r).modify r f).elements x).completedPredicate t) = p.queue t := by
      apply List.filter_congr
      intro x hx
      have hxr : x ≠ r := fun heq => habsent (heq ▸ hx)
      simp [hxr]
    rw [Function.update_self, ← hsame]
    simp [queue, Pipe.push, List.filter_append, hkept]
  · have hpush : (p.push target r).queue t = p.queue t := by
      simp [queue, ht]
    have hskip : r ∈ ((p.push target r).pipe t).elements →
        (f ((p.push target r).elements r)).completedPredicate t = true := by
      intro hmem
      have hbehind := h.behind t r (((mem_push p r).mp hmem).resolve_left fun hboth => ht hboth.1)
      rw [push_elements, hlife.completedPredicate_eq, rank_of_place htarget, decide_eq_true_eq]
      rw [rank_of_place hplace] at hbehind
      omega
    rw [Function.update_of_ne ht, queue_modify hskip, hpush]
    by_cases hstage : t = stage
    · subst hstage
      rw [Function.update_self, hfront]
      exact filter_ne_cons (hfront ▸ hq.nodup_queue t)
    · rw [Function.update_of_ne hstage]
      refine filter_ne_self fun hmem => hstage ?_
      have heligible := (h.eligible_iff hr t).mp (mem_queue.mp hmem)
      exact Option.some.inj (heligible.symm.trans hplace)

theorem suffix_append_right {xs ys : List Ref} (h : xs <:+ ys) (zs : List Ref) :
    xs ++ zs <:+ ys ++ zs := by
  obtain ⟨front, rfl⟩ := h
  exact ⟨front, (List.append_assoc _ _ _).symm⟩

theorem suffix_of_cons {r : Ref} {rest ys : List Ref} (h : r :: rest <:+ ys) : rest <:+ ys :=
  (List.suffix_cons r rest).trans h

theorem Sited.queued_advance (h : Sited cfg p log) (hq : Queued p) {r : Ref} {stage target : Stage}
    (hr : r < p.created) (hplace : (p.elements r).place = some stage) {visits : List Visit}
    {f : ServerPipelineElement → ServerPipelineElement}
    (hlife : Life cfg (p.elements r).clientFd visits (f (p.elements r)))
    (htarget : (f (p.elements r)).place = some target) (hlater : stage.rank < target.rank)
    {rest : List Ref} (hfront : p.queue stage = r :: rest) :
    Queued ((p.push target r).modify r f) where
  nodup t := by
    by_cases ht : t = target
    · subst ht
      have habsent := h.not_mem_later hplace hlater
      simpa [Pipe.push, List.nodup_append_comm] using And.intro habsent (hq.nodup t)
    · simpa [ht] using hq.nodup t
  suffix t := by
    rw [h.queue_advance hq hr hplace hlife htarget hlater hfront]
    by_cases ht : t = target
    · subst ht
      simpa [Pipe.push] using suffix_append_right (hq.suffix t) [r]
    · rw [Function.update_of_ne ht]
      by_cases hstage : t = stage
      · subst hstage
        rw [Function.update_self]
        simpa [ht] using suffix_of_cons (hfront ▸ hq.suffix t)
      · simpa [ht, hstage] using hq.suffix t
  flagged t := by
    by_cases ht : t = target
    · subst ht
      simp [Pipe.push]
    · simpa [ht] using hq.flagged t

theorem Sited.queue_finish (h : Sited cfg p log) (hq : Queued p) {r : Ref} (hr : r < p.created)
    (hplace : (p.elements r).place = some .completed) {rest : List Ref}
    (hfront : p.queue .completed = r :: rest) :
    (p.modify r .markAsCompletedCompleted).queue = Function.update p.queue .completed rest := by
  have hlife : Life cfg (p.elements r).clientFd
      (log r ++ [.complete (p.elements r) none false]) (p.elements r).markAsCompletedCompleted :=
    (h.life r hr).complete hplace
  funext t
  have hskip : (p.elements r).markAsCompletedCompleted.completedPredicate t = true := by
    rw [hlife.completedPredicate_eq, decide_eq_true_eq, ServerPipelineElement.rank,
      place_markAsCompletedCompleted]
    cases t <;> decide
  rw [queue_modify fun _ => hskip]
  by_cases ht : t = .completed
  · subst ht
    rw [Function.update_self, hfront]
    exact filter_ne_cons (hfront ▸ hq.nodup_queue .completed)
  · rw [Function.update_of_ne ht]
    refine filter_ne_self fun hmem => ht ?_
    have heligible := (h.eligible_iff hr t).mp (mem_queue.mp hmem)
    exact Option.some.inj (heligible.symm.trans hplace)

theorem Sited.queued_finish (h : Sited cfg p log) (hq : Queued p) {r : Ref} (hr : r < p.created)
    (hplace : (p.elements r).place = some .completed) {rest : List Ref}
    (hfront : p.queue .completed = r :: rest) : Queued (p.modify r .markAsCompletedCompleted) where
  nodup := hq.nodup
  suffix t := by
    rw [h.queue_finish hq hr hplace hfront]
    by_cases ht : t = .completed
    · subst ht
      rw [Function.update_self]
      exact suffix_of_cons (hfront ▸ hq.suffix .completed)
    · rw [Function.update_of_ne ht]
      exact hq.suffix t
  flagged := hq.flagged

theorem Sited.queue_publish (h : Sited cfg p log) {acquired : Bool} {pending : List Int}
    (hpublished : (p.publishConnectN acquired pending).1 = true) :
    (p.publishConnectN acquired pending).2.queue = Function.update p.queue .request
      (p.queue .request ++ List.range' p.created pending.length) := by
  have hold : ∀ t, ((p.pipe t).elements.filter fun r =>
      !((p.publishConnectN acquired pending).2.elements r).completedPredicate t) = p.queue t := by
    intro t
    apply List.filter_congr
    intro r hr
    rw [publishConnectN_old hpublished (h.known t r hr)]
  have hnew : (List.range' p.created pending.length).filter (fun r =>
      !((p.publishConnectN acquired pending).2.elements r).completedPredicate .request) =
      List.range' p.created pending.length := by
    rw [List.filter_eq_self]
    intro r hr
    obtain ⟨hlow, hhigh⟩ := List.mem_range'_1.mp hr
    obtain ⟨i, fd, rfl, hfd⟩ := Sited.pending_of_new rfl hlow hhigh
    rw [publishConnectN_new hpublished hfd]
    rfl
  funext t
  by_cases ht : t = .request
  · subst ht
    have hpushed : ((p.pipe .request).pushWithTimeoutN acquired
        (List.range' p.created pending.length)).1 = true := by
      simp only [publishConnectN] at hpublished
      split_ifs at hpublished with hdone
      exact hdone
    rw [Function.update_self, ← hold .request, queue, publishConnectN_pipe hpublished,
      Function.update_self, Pipe.pushWithTimeoutN_elements hpushed, List.filter_append, hnew]
  · rw [Function.update_of_ne ht, ← hold t, queue, publishConnectN_pipe hpublished,
      Function.update_of_ne ht]

theorem Sited.queued_publish (h : Sited cfg p log) (hq : Queued p) {acquired : Bool}
    {pending : List Int} (hpublished : (p.publishConnectN acquired pending).1 = true) :
    Queued (p.publishConnectN acquired pending).2 := by
  have hpushed : ((p.pipe .request).pushWithTimeoutN acquired
      (List.range' p.created pending.length)).1 = true := by
    simp only [publishConnectN] at hpublished
    split_ifs at hpublished with hdone
    exact hdone
  have helements := Pipe.pushWithTimeoutN_elements hpushed
  refine ⟨fun t => ?_, fun t => ?_, fun t => ?_⟩
  · by_cases ht : t = .request
    · subst ht
      rw [publishConnectN_pipe hpublished, Function.update_self, helements]
      refine List.Nodup.append (hq.nodup .request) List.nodup_range' fun r hold hnew => ?_
      exact Nat.not_lt.mpr (List.mem_range'_1.mp hnew).1 (h.known .request r hold)
    · rw [publishConnectN_pipe hpublished, Function.update_of_ne ht]
      exact hq.nodup t
  · rw [h.queue_publish hpublished, publishConnectN_pipe hpublished]
    by_cases ht : t = .request
    · subst ht
      rw [Function.update_self, Function.update_self, helements]
      exact suffix_append_right (hq.suffix .request) _
    · rw [Function.update_of_ne ht, Function.update_of_ne ht]
      exact hq.suffix t
  · rw [publishConnectN_pipe hpublished]
    by_cases ht : t = .request
    · subst ht
      rw [Function.update_self]
      exact Pipe.pushWithTimeoutN_flagged (hq.flagged .request) _ _
    · rw [Function.update_of_ne ht]
      exact hq.flagged t

theorem ServerPipeline.Queued.pipe_maintain (hq : Queued p) (acquired : Stage → Bool)
    (stage : Stage) :
    ((p.doPipelineMaintenance acquired).pipe stage).elements =
      if acquired stage then p.queue stage else (p.pipe stage).elements := by
  have hpruned := dropWhile_eq_filter (hq.suffix stage)
  refine (Pipe.doPipeMaintenance_elements (hq.flagged stage) (acquired stage) _).trans ?_
  rw [hpruned]
  rfl

theorem ServerPipeline.Queued.queue_maintain (hq : Queued p) (acquired : Stage → Bool) :
    (p.doPipelineMaintenance acquired).queue = p.queue := by
  funext stage
  rw [queue, hq.pipe_maintain]
  split_ifs
  · exact (List.filter_filter).trans (List.filter_congr fun r _ => Bool.and_self _)
  · rfl

theorem ServerPipeline.Queued.maintain (hq : Queued p) (acquired : Stage → Bool) :
    Queued (p.doPipelineMaintenance acquired) where
  nodup stage := by
    rw [hq.pipe_maintain]
    split_ifs
    · exact hq.nodup_queue stage
    · exact hq.nodup stage
  suffix stage := by
    rw [hq.queue_maintain, hq.pipe_maintain]
    split_ifs
    · exact List.suffix_refl _
    · exact hq.suffix stage
  flagged stage := Pipe.doPipeMaintenance_flagged (hq.flagged stage) _ _

/-! ## The server as a network of queues -/

namespace Server

open NetworkConnections

variable {s s' : Server cfg}

def queues (s : Server cfg) : QueueNetwork Stage := ⟨s.pipeline.created, s.pipeline.queue⟩

def passEvents (s : Server cfg) (objectId : Nat) (polling : Polling) : List (QueueEvent Stage) :=
  .arrive (s.publishedFds polling.publishAcquired).length ::
    if polling.exit then []
    else (settled objectId polling.acquired (s.publishActive polling.publishAcquired)).map
      fun _ => .leave .completed

/-- A worker moves the front of its queue to where the status of its visit sends it. -/
def queueEvents : Iteration → Server cfg → List (QueueEvent Stage)
  | .listener objectId polling, s =>
    ((s.poll polling).map fun s => s.passEvents objectId polling).getD []
  | iteration, s => (visit iteration s).toList.map fun (_, v) => .move v.stage v.target

theorem queueEvents_of_stage {iteration : Iteration} {stage : Stage}
    (h : iteration.stage = some stage) (s : Server cfg) :
    queueEvents iteration s =
      (visit iteration s).toList.map fun (_, v) => .move v.stage v.target := by
  cases iteration with
  | listener | maintenance => cases h
  | reader | datamodel | writer => rfl

theorem front_of_visit (h : Inv s) (hq : Queued s.pipeline) {iteration : Iteration} {r : Ref}
    {v : Visit} (hvisit : visit iteration s = some (r, v)) :
    ∃ rest, s.pipeline.queue v.stage = r :: rest := by
  obtain ⟨-, objectId, acquired, p, hnext⟩ := visit_eq_some hvisit
  exact h.sited.queue_of_getNext hq hnext

theorem Visits.queue (h : Inv s) (hq : Queued s.pipeline) {r : Ref} {v : Visit}
    (hv : Visits s s' r v) {rest : List Ref} (hfront : s.pipeline.queue v.stage = r :: rest) :
    Queued s'.pipeline ∧ s'.pipeline.created = s.pipeline.created ∧
      s'.pipeline.queue = Function.update (Function.update s.pipeline.queue v.stage rest) v.target
        (s.pipeline.queue v.target ++ [r]) := by
  rw [hv.pipeline]
  exact ⟨h.sited.queued_advance hq hv.created hv.place hv.life hv.next hv.later hfront, rfl,
    h.sited.queue_advance hq hv.created hv.place hv.life hv.next hv.later hfront⟩

theorem Visits.queues_run (h : Inv s) (hq : Queued s.pipeline) {r : Ref} {v : Visit}
    (hv : Visits s s' r v) {rest : List Ref} (hfront : s.pipeline.queue v.stage = r :: rest) :
    Queued s'.pipeline ∧ (QueueNetwork.machine Stage.request).run [.move v.stage v.target]
      s.queues = some s'.queues := by
  obtain ⟨hqueued, hcreated, hqueue⟩ := hv.queue h hq hfront
  refine ⟨hqueued, ?_⟩
  have hne : v.target ≠ v.stage := fun heq => Nat.lt_irrefl _ (heq ▸ hv.later)
  have hfirst : v.target ≠ .request := by
    intro heq
    exact Nat.not_lt_zero _ (heq ▸ hv.later :)
  have hserve := QueueNetwork.serve_of_queue (q := s.queues) hfront
  rw [Machine.run_singleton]
  simp only [QueueNetwork.machine, QueueNetwork.step, hne, hfirst, or_self, if_false, hserve,
    Option.map_some]
  simp only [QueueNetwork.append, Function.update_of_ne hne, queues, hcreated, hqueue]

theorem updateNetworkConnection_queue (h : Inv s) (hq : Queued s.pipeline) {objectId : Nat}
    {acquired : Bool} {r : Ref} {p : ServerPipeline}
    (hnext : s.pipeline.getNextCompleted objectId acquired = some (r, p)) :
    ∃ rest, s.pipeline.queue .completed = r :: rest ∧
      Queued (s.updateNetworkConnection p r).pipeline ∧
      (s.updateNetworkConnection p r).queues =
        ⟨s.pipeline.created, Function.update s.pipeline.queue .completed rest⟩ := by
  obtain ⟨rest, hfront⟩ := h.sited.queue_of_getNext hq hnext
  obtain ⟨hr, hplace, -⟩ := h.sited.getNext hnext
  refine ⟨rest, hfront, ?_⟩
  rw [queues, (updateNetworkConnection_cases h hnext).1]
  exact ⟨h.sited.queued_finish hq hr hplace hfront,
    congrArg (QueueNetwork.mk _) (h.sited.queue_finish hq hr hplace hfront)⟩

theorem updateNetworkConnections_queues (h : Inv s) (hq : Queued s.pipeline) {objectId : Nat}
    {acquired : List Bool} (hstep : updateNetworkConnections objectId acquired s = some s') :
    Queued s'.pipeline ∧ (QueueNetwork.machine Stage.request).run
      ((settled objectId acquired s).map fun _ => .leave .completed) s.queues =
        some s'.queues := by
  induction acquired generalizing s with
  | nil => cases hstep
  | cons acquired rest ih =>
    rw [Server.updateNetworkConnections] at hstep
    rw [settled]
    cases hnext : s.pipeline.getNextCompleted objectId acquired with
    | none =>
      simp only [hnext] at hstep
      cases hstep
      exact ⟨hq, rfl⟩
    | some next =>
      obtain ⟨r, p⟩ := next
      simp only [hnext] at hstep
      obtain ⟨left, hfront, hqueued, hqueues⟩ := updateNetworkConnection_queue h hq hnext
      obtain ⟨hlast, hrun⟩ := ih (h.updateNetworkConnection hnext) hqueued hstep
      have hleave : (QueueNetwork.machine Stage.request).run [.leave .completed] s.queues =
          some (s.updateNetworkConnection p r).queues := by
        have hserve := QueueNetwork.serve_of_queue (q := s.queues) hfront
        rw [Machine.run_singleton, hqueues]
        exact congrArg (Option.map Prod.snd) hserve
      exact ⟨hlast, Machine.run_append hleave hrun⟩

theorem publishActive_queues (h : Inv s) (hq : Queued s.pipeline) (acquired : Bool) :
    Queued (s.publishActive acquired).pipeline ∧ (QueueNetwork.machine Stage.request).run
      [.arrive (s.publishedFds acquired).length] s.queues =
        some (s.publishActive acquired).queues := by
  rcases publishActive_cases s acquired with ⟨hnone, heq⟩ | ⟨hpublished, heq⟩
  · rw [heq, hnone, Machine.run_singleton]
    refine ⟨hq, ?_⟩
    simp [QueueNetwork.machine, QueueNetwork.step, QueueNetwork.append, queues]
  · have hfds : s.publishedFds acquired = s.connections.getActiveConnections.activeConnections :=
      if_pos hpublished
    rw [heq, hfds, Machine.run_singleton]
    refine ⟨h.sited.queued_publish hq hpublished, ?_⟩
    simp only [queues, publishConnectN_created hpublished, h.sited.queue_publish hpublished]
    rfl

theorem serviceListener_queues (h : Inv s) (hq : Queued s.pipeline) {objectId : Nat}
    {polling : Polling} (hstep : s.serviceListener objectId polling = some s') :
    Queued s'.pipeline ∧ (QueueNetwork.machine Stage.request).run
      (queueEvents (.listener objectId polling) s) s.queues = some s'.queues := by
  obtain ⟨u, hpolled, hupdated⟩ := Option.bind_eq_some_iff.mp
    ((serviceListener_eq_poll s objectId polling).symm.trans hstep)
  have hu := h.poll hpolled
  have hpipeline := poll_pipeline hpolled
  have hsame : s.queues = u.queues := by rw [queues, queues, hpipeline]
  obtain ⟨hqueued, hpublished⟩ :=
    publishActive_queues hu (hpipeline ▸ hq) polling.publishAcquired
  rw [queueEvents, hpolled, hsame]
  simp only [Option.map_some, Option.getD_some, passEvents]
  simp only at hupdated
  split_ifs at hupdated ⊢
  · cases hupdated
    exact ⟨hqueued, hpublished⟩
  · obtain ⟨hlast, hsettled⟩ :=
      updateNetworkConnections_queues (hu.publishActive _) hqueued hupdated
    exact ⟨hlast, Machine.run_append hpublished hsettled⟩

theorem step_queues (h : Inv s) (hq : Queued s.pipeline) {iteration : Iteration}
    (hstep : step iteration s = some s') :
    Queued s'.pipeline ∧ (QueueNetwork.machine Stage.request).run (queueEvents iteration s)
      s.queues = some s'.queues := by
  rcases step_cases h.sited hstep with
    ⟨objectId, polling, rfl, hpass⟩ | ⟨acquired, rfl, rfl⟩ | ⟨stage, hstage, hidle, rfl⟩ |
      ⟨r, v, hvisit, hv⟩
  · exact serviceListener_queues h hq hpass
  · refine ⟨hq.maintain acquired, ?_⟩
    simp only [queues, hq.queue_maintain]
    rfl
  · rw [queueEvents_of_stage hstage, hidle]
    exact ⟨hq, rfl⟩
  · rw [queueEvents_of_stage (visit_eq_some hvisit).1, hvisit]
    obtain ⟨rest, hfront⟩ := front_of_visit h hq hvisit
    exact hv.queues_run h hq hfront

theorem queued_of_reachable (h : (machine cfg).Reachable s) : Queued s.pipeline :=
  h.invariant (I := fun s => Queued s.pipeline) queued_new fun _ _ _ hs hq hstep =>
    (step_queues (inv_of_reachable hs) hq hstep).1

/-- Every stage serves its pipe first come, first served: what the scans, the predicates
and the pruning of the pipes do together in an iteration is to pop the front of a queue. -/
theorem refines_queues (cfg : ServerConfig) :
    (machine cfg).Refines (QueueNetwork.machine Stage.request) queues queueEvents where
  start := rfl
  step _ _ _ hs hstep := (step_queues (inv_of_reachable hs) (queued_of_reachable hs) hstep).2

/-! ## What the queues tell -/

theorem queues_reachable (h : (machine cfg).Reachable s) :
    (QueueNetwork.machine Stage.request).Reachable s.queues := by
  refine Machine.Reachable.invariant
    (I := fun s => (QueueNetwork.machine Stage.request).Reachable s.queues) .start ?_ h
  intro s s' iteration hs hqueues hstep
  exact hqueues.run (step_queues (inv_of_reachable hs) (queued_of_reachable hs) hstep).2

theorem Inv.log_eq_nil_iff (h : Inv s) {r : Ref} (hr : r < s.pipeline.created) :
    s.log r = [] ↔ (s.pipeline.elements r).place = some .request := by
  have hlife := h.sited.life r hr
  constructor
  · exact hlife.place_of_nil
  · exact fun hplace => (hlife.at_request hplace).1

/-- Where the readers make their passes one after the other, the requests are read in the
order in which the listener has published them, however many readers there are. -/
theorem read_in_order (h : (machine cfg).Reachable s) {r r' : Ref} (hlt : r < r')
    (hcreated : r' < s.pipeline.created) (hread : s.log r' ≠ []) : s.log r ≠ [] := by
  have hinv := inv_of_reachable h
  obtain ⟨served, -, hqueue⟩ := QueueNetwork.latest_of_reachable (queues_reachable h)
  have hwaits : ∀ x < s.pipeline.created, s.log x = [] ↔ served ≤ x := by
    intro x hx
    have hmem : x ∈ s.pipeline.queue .request ↔ served ≤ x := by
      change x ∈ s.queues.queue .request ↔ _
      rw [hqueue, List.mem_range'_1]
      have : s.queues.arrived = s.pipeline.created := rfl
      omega
    rw [hinv.log_eq_nil_iff hx, ← hinv.sited.eligible_iff hx, ← mem_queue, hmem]
  rw [ne_eq, hwaits _ hcreated] at hread
  rw [ne_eq, hwaits _ (hlt.trans hcreated)]
  exact fun hle => hread (hle.trans hlt.le)

def pair : List Iteration :=
  [.listener 0 ⟨.ready [3], 4, true, false, [true]⟩,
    .listener 0 ⟨.ready [3], 5, true, false, [true]⟩,
    .listener 0 ⟨.ready [4, 5], -1, true, false, [true]⟩, .reader 1 true 0 pingEvents,
    .reader 2 true 0 [.bytes []]]

theorem read_in_order_pair :
    ∃ s, (machine shipped).run pair (start shipped) = some s ∧ s.log 0 ≠ [] := by
  have hrun : ((machine shipped).run pair (start shipped)).map (fun s =>
      (s.pipeline.created, (s.log 1).isEmpty)) = some (2, false) := by decide +kernel
  obtain ⟨s, hs, hstate⟩ := Option.map_eq_some_iff.mp hrun
  obtain ⟨hcreated, hlog⟩ := Prod.mk.inj hstate
  refine ⟨s, hs, read_in_order (Machine.reachable_of_run hs) (show 0 < 1 by decide)
    (by rw [hcreated]; decide) ?_⟩
  simpa using hlog

def inFlight (s : Server cfg) : List Ref :=
  PipelineMaintenance.pipes.flatMap s.pipeline.queue

theorem Inv.inFlight_perm (h : Inv s) (hq : Queued s.pipeline) :
    s.inFlight.Perm
      ((List.range s.pipeline.created).filter fun r => (s.pipeline.elements r).place.isSome) := by
  have hplace : ∀ {stage : Stage} {r : Ref}, r ∈ s.pipeline.queue stage ↔
      r < s.pipeline.created ∧ (s.pipeline.elements r).place = some stage := by
    intro stage r
    rw [mem_queue]
    constructor
    · intro heligible
      have hr := h.sited.created_of_eligible heligible
      exact ⟨hr, (h.sited.eligible_iff hr stage).mp heligible⟩
    · exact fun hboth => (h.sited.eligible_iff hboth.1 stage).mpr hboth.2
  have hnodup : s.inFlight.Nodup := by
    rw [inFlight, List.nodup_flatMap]
    refine ⟨fun stage _ => hq.nodup_queue stage, ?_⟩
    refine List.Pairwise.imp (fun {a b} hne r hr hr' => hne ?_)
      (show PipelineMaintenance.pipes.Nodup by decide)
    exact Option.some.inj ((hplace.mp hr).2.symm.trans (hplace.mp hr').2)
  rw [List.perm_ext_iff_of_nodup hnodup (List.nodup_range.filter _)]
  intro r
  simp only [inFlight, List.mem_flatMap, hplace, List.mem_filter, List.mem_range,
    Option.isSome_iff_exists]
  constructor
  · rintro ⟨stage, -, hr, hstage⟩
    exact ⟨hr, stage, hstage⟩
  · rintro ⟨hr, stage, hstage⟩
    exact ⟨stage, by cases stage <;> decide, hr, hstage⟩

theorem Inv.locked_perm (h : Inv s) (hq : Queued s.pipeline) :
    (s.connections.activeConnections ++
        s.inFlight.map fun r => (s.pipeline.elements r).clientFd).Perm
      (((table s.connections.networkConnections).filter (·.locked)).map
        NetworkConnection.clientFd) := by
  rw [List.perm_iff_count]
  intro fd
  have htokens := h.accounts.tokens fd
  have hcarried : ((s.inFlight.map fun r => (s.pipeline.elements r).clientFd).count fd) =
      (List.range s.pipeline.created).countP fun r => s.pipeline.carried r = some fd := by
    rw [List.count, List.countP_map, (h.inFlight_perm hq).countP_eq, List.countP_filter]
    apply List.countP_congr
    intro r _
    cases hplace : (s.pipeline.elements r).place <;> simp [carried, hplace]
  have hlocked : (((table s.connections.networkConnections).filter (·.locked)).map
      NetworkConnection.clientFd).count fd = lockedCount fd s.connections.networkConnections := by
    rw [List.count, List.countP_map, List.countP_filter, lockedCount]
    apply List.countP_congr
    intro c _
    simp
  rw [List.count_append, hcarried, hlocked, htokens]

/-- A full table bounds what the server holds between two iterations: the requests in
flight and those that wait are as many as the locked connections, and a maintenance that
obtains the mutexes of all four pipes leaves nothing else in them. -/
theorem storage_bounded (h : (machine cfg).Reachable s) :
    s.connections.activeConnections.length + s.inFlight.length =
      ((table s.connections.networkConnections).filter (·.locked)).length ∧
    s.connections.activeConnections.length + s.inFlight.length ≤ cfg.maximumClients ∧
    (PipelineMaintenance.pipes.flatMap fun stage =>
      ((s.pipeline.doPipelineMaintenance fun _ => true).pipe stage).elements) = s.inFlight := by
  have hinv := inv_of_reachable h
  have hq := queued_of_reachable h
  have hlength := (hinv.locked_perm hq).length_eq
  rw [List.length_append, List.length_map, List.length_map] at hlength
  refine ⟨hlength, ?_, ?_⟩
  · rw [hlength]
    have hbound := (ledger_of_reachable h).bounded
    rw [fds, List.length_map] at hbound
    exact (List.length_filter_le _ _).trans hbound
  · simp only [hq.pipe_maintain, if_true]
    rfl

theorem storage_bounded_pair :
    ∃ s, (machine shipped).run pair (start shipped) = some s ∧ s.inFlight.length = 2 ∧
      s.connections.activeConnections.length + s.inFlight.length ≤ 2 := by
  have hrun : ((machine shipped).run pair (start shipped)).map (fun s => s.inFlight.length) =
      some 2 := by decide +kernel
  obtain ⟨s, hs, hlength⟩ := Option.map_eq_some_iff.mp hrun
  exact ⟨s, hs, hlength, (storage_bounded (Machine.reachable_of_run hs)).2.1⟩

end Server

end MultiplexServer

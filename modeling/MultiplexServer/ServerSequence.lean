import MultiplexServer.ServerConversations
import MultiplexServer.ServerReplies

/-! The requests of one descriptor in the order of their elements: a later one is not
made before an earlier one has been dealt with to the end. -/

namespace MultiplexServer.Server
open ServerPipeline ServerPipelineElement NetworkConnections

variable {cfg : ServerConfig} {s s' : Server cfg}

def Sequential (p : ServerPipeline) : Prop :=
  ∀ r r', r < r' → r' < p.created →
    (p.elements r).clientFd = (p.elements r').clientFd → (p.elements r).place = none

theorem sequential_start (cfg : ServerConfig) : Sequential (start cfg).pipeline :=
  fun _ _ _ hr => absurd hr (Nat.not_lt_zero _)

theorem Sequential.modify {p : ServerPipeline} (h : Sequential p) {r : Ref}
    {f : ServerPipelineElement → ServerPipelineElement}
    (hfd : (f (p.elements r)).clientFd = (p.elements r).clientFd)
    (hplace : (p.elements r).place ≠ none) : Sequential (p.modify r f) := by
  intro a b hab hb hsame
  have hclient : ∀ x, ((p.modify r f).elements x).clientFd = (p.elements x).clientFd := by
    intro x
    by_cases hx : x = r
    · subst hx
      simp [hfd]
    · simp [hx]
  rw [hclient, hclient] at hsame
  have hdone := h a b hab hb hsame
  have hne : a ≠ r := fun heq => hplace (heq ▸ hdone)
  simpa [hne] using hdone

theorem Sequential.visits (hseq : Sequential s.pipeline) {r : Ref} {visit : Visit}
    (hv : Visits s s' r visit) : Sequential s'.pipeline := by
  rw [hv.pipeline]
  refine Sequential.modify (p := s.pipeline.push visit.target r) hseq hv.life.clientFd ?_
  rw [push_elements, hv.place]
  exact Option.some_ne_none visit.stage

theorem Inv.sequential_publish (h : Inv s) (hseq : Sequential s.pipeline) {acquired : Bool}
    (hpublished : (s.pipeline.publishConnectN acquired s.connections.activeConnections).1 = true) :
    Sequential (s.pipeline.publishConnectN acquired s.connections.activeConnections).2 := by
  intro a b hab hb hsame
  rw [publishConnectN_created hpublished] at hb
  by_cases hold : b < s.pipeline.created
  · rw [publishConnectN_old hpublished (hab.trans hold)] at hsame ⊢
    rw [publishConnectN_old hpublished hold] at hsame
    exact hseq a b hab hold hsame
  obtain ⟨j, fd, rfl, hfd⟩ := Sited.pending_of_new rfl (not_lt.mp hold) hb
  rw [publishConnectN_new hpublished hfd] at hsame
  by_cases holder : a < s.pipeline.created
  · rw [publishConnectN_old hpublished holder] at hsame ⊢
    have hcarried := h.accounts.not_carried_of_active (List.mem_of_getElem? hfd) holder
    by_contra hplace
    obtain ⟨stage, hstage⟩ := Option.ne_none_iff_exists'.mp hplace
    exact hcarried ((carried_of_place hstage).trans (congrArg some hsame))
  · obtain ⟨i, other, rfl, hother⟩ :=
      Sited.pending_of_new rfl (not_lt.mp holder) (hab.trans hb)
    rw [publishConnectN_new hpublished hother] at hsame
    have hbound := (List.getElem?_eq_some_iff.mp hother).1
    have hindex : i = j := (List.getElem?_inj hbound h.accounts.active_nodup).mp <| by
      rw [hother, hfd]
      exact congrArg some hsame
    omega

theorem Sequential.publishActive (hseq : Sequential s.pipeline) (h : Inv s) (acquired : Bool) :
    Sequential (s.publishActive acquired).pipeline := by
  have hactive := h.getActiveConnections
  rcases publishActive_cases s acquired with ⟨-, heq⟩ | ⟨hpublished, heq⟩
  · rw [heq]
    exact hseq
  · rw [heq]
    exact hactive.sequential_publish hseq hpublished

theorem Sequential.updateNetworkConnections (hseq : Sequential s.pipeline) (h : Inv s)
    {objectId : Nat} {acquired : List Bool}
    (hstep : updateNetworkConnections objectId acquired s = some s') :
    Sequential s'.pipeline := by
  induction acquired generalizing s with
  | nil => cases hstep
  | cons acquired rest ih =>
    rw [Server.updateNetworkConnections] at hstep
    cases hnext : s.pipeline.getNextCompleted objectId acquired with
    | none =>
      simp only [hnext] at hstep
      cases hstep
      exact hseq
    | some next =>
      obtain ⟨r, p⟩ := next
      simp only [hnext] at hstep
      refine ih ?_ (h.updateNetworkConnection hnext) hstep
      rw [(updateNetworkConnection_cases h hnext).1]
      refine hseq.modify rfl ?_
      rw [(h.sited.getNext hnext).2.1]
      exact Option.some_ne_none _

theorem poll_pipeline {polling : Polling} (hstep : s.poll polling = some s') :
    s'.pipeline = s.pipeline := by
  rcases poll_cases hstep with ⟨-, rfl⟩ | ⟨-, haccept⟩
  · rfl
  · exact (connectAccept_cases haccept).1

theorem Sequential.serviceListener (hseq : Sequential s.pipeline) (h : Inv s) {objectId : Nat}
    {polling : Polling} (hstep : s.serviceListener objectId polling = some s') :
    Sequential s'.pipeline := by
  obtain ⟨u, hpolled, hupdated⟩ := Option.bind_eq_some_iff.mp
    ((serviceListener_eq_poll s objectId polling).symm.trans hstep)
  have hu := h.poll hpolled
  have hpublished := Sequential.publishActive (poll_pipeline hpolled ▸ hseq) hu
    polling.publishAcquired
  simp only at hupdated
  split_ifs at hupdated
  · exact Option.some.inj hupdated ▸ hpublished
  · exact hpublished.updateNetworkConnections (hu.publishActive _) hupdated

theorem sequential_of_reachable (h : (machine cfg).Reachable s) : Sequential s.pipeline :=
  h.invariant (I := fun s => Sequential s.pipeline) (sequential_start cfg)
    fun s t iteration hs hseq hstep => by
      have hinv := inv_of_reachable hs
      rcases step_cases hinv.sited hstep with
        ⟨objectId, polling, rfl, hpass⟩ | ⟨acquired, rfl, rfl⟩ | ⟨-, -, -, rfl⟩ | ⟨r, v, -, hv⟩
      · exact hseq.serviceListener hinv hpass
      · exact hseq
      · exact hseq
      · exact hseq.visits hv

/-- In a run of whole iterations, one after the other, a client's request is taken on when
the one before it on the same descriptor has been read, computed and written, or has
failed, and the listener has settled it: so the replies leave in the order of the requests. -/
theorem earlier_settled (h : (machine cfg).Reachable s) {r r' : Ref} (hlt : r < r')
    (hcreated : r' < s.pipeline.created)
    (hsame : (s.pipeline.elements r).clientFd = (s.pipeline.elements r').clientFd) :
    ∃ log e connection isOpen, Life.Settled cfg (s.pipeline.elements r').clientFd log e ∧
      s.log r = log ++ [.complete e connection isOpen] ∧
      s.pipeline.elements r = e.markAsCompletedCompleted := by
  have hdone := sequential_of_reachable h r r' hlt hcreated hsame
  have hlife := (inv_of_reachable h).sited.life r (hlt.trans hcreated)
  obtain ⟨log, e, connection, isOpen, hsettled, hlog, helement⟩ := hlife.at_end hdone
  exact ⟨log, e, connection, isOpen, hsame ▸ hsettled, hlog, helement⟩

theorem earlier_settled_ping :
    ∃ s, (machine shipped).run (ping ++ [closing] ++ connect.drop 1) (start shipped) = some s ∧
      ∃ log e connection isOpen, Life.Settled shipped 4 log e ∧
        s.log 0 = log ++ [.complete e connection isOpen] ∧
        s.pipeline.elements 0 = e.markAsCompletedCompleted := by
  have hrun : ((machine shipped).run (ping ++ [closing] ++ connect.drop 1)
      (start shipped)).map (fun s => (s.pipeline.created, (s.pipeline.elements 0).clientFd,
        (s.pipeline.elements 1).clientFd)) = some (2, 4, 4) := by decide +kernel
  obtain ⟨s, hs, hstate⟩ := Option.map_eq_some_iff.mp hrun
  simp only [Prod.mk.injEq] at hstate
  obtain ⟨hcreated, hfirst, hsecond⟩ := hstate
  have hsettled := earlier_settled (Machine.reachable_of_run hs) (show 0 < 1 by decide)
    (by rw [hcreated]; decide) (hfirst.trans hsecond.symm)
  rw [hsecond] at hsettled
  exact ⟨s, hs, hsettled⟩

end MultiplexServer.Server

import MultiplexServer.Library.Balance
import MultiplexServer.ServerDescriptors

/-! The descriptors over the whole life of a listener. With the listener are destroyed its
connections, whose descriptors are closed then, and at last the descriptor it listens on.
So a descriptor is closed as often as it has been accepted, but for a client's that is 0. -/

namespace MultiplexServer.Server
open ServerPipeline NetworkConnections

variable {cfg : ServerConfig} {s s' : Server cfg}

structure ClosedConnections where
  calls : List ListenerCall
  slots : List (Option NetworkConnection)
  openFds : List Int

/-- A client's descriptor 0 is passed over. -/
def closeConnections : List (Option NetworkConnection) → List Int → ClosedConnections
  | [], openFds => ⟨[], [], openFds⟩
  | none :: slots, openFds =>
    let rest := closeConnections slots openFds
    { rest with slots := none :: rest.slots }
  | some c :: slots, openFds =>
    if 0 < c.clientFd then
      let rest := closeConnections slots (closeFd c.clientFd openFds)
      ⟨.closeFd c.clientFd (openFds.contains c.clientFd) :: rest.calls, none :: rest.slots,
        rest.openFds⟩
    else
      let rest := closeConnections slots openFds
      { rest with slots := some c :: rest.slots }

def destroyListener (s : Server cfg) : List ListenerCall × Server cfg :=
  let closed := closeConnections s.connections.networkConnections s.openFds
  (closed.calls ++ [.closeFd cfg.listenerFd (closed.openFds.contains cfg.listenerFd)],
    { s with
      connections := { s.connections with networkConnections := closed.slots }
      openFds := closeFd cfg.listenerFd closed.openFds })

def ListenerCall.closes : ListenerCall → Option Int
  | .closeFd fd _ => some fd
  | .removeConnection _ _ | .unlockConnection _ _ => none

def closedFds (calls : List ListenerCall) : List Int := calls.filterMap ListenerCall.closes

def acceptedFds (s : Server cfg) (code newFd : Int) : List Int :=
  if (0 < code ∧ s.isNewClient) ∧ 0 ≤ newFd then [newFd] else []

def accepts : Iteration → Server cfg → List Int
  | .listener _ polling, s =>
    let requested := ((s.connections.init cfg.listenerFd).getMaxFd cfg.listenerFd).2
    let selected := connectSelect requested polling.select
    { s with connections := selected.2 }.acceptedFds selected.1 polling.accepted
  | _, _ => []

def closes : Iteration → Server cfg → List Int
  | .listener objectId polling, s => closedFds (s.listenerCalls objectId polling)
  | _, _ => []

/-! ## Iterations -/

theorem perm_closeFd {fd : Int} {openFds : List Int} (hfd : 0 ≤ fd) (hnodup : openFds.Nodup)
    (hopen : fd ∈ openFds) : openFds.Perm (fd :: closeFd fd openFds) := by
  rw [closeFd_eq_erase hfd hnodup]
  exact List.perm_cons_erase hopen

theorem Ledger.acceptNewClient (h : Ledger s) {code newFd : Int}
    (hstep : s.acceptNewClient code newFd = some s') : Ledger s' := by
  unfold Server.acceptNewClient at hstep
  split_ifs at hstep
  · exact h.accept hstep
  · exact Option.some.inj hstep ▸ h

theorem Ledger.accept_balanced (h : Ledger s) {code newFd : Int}
    (hstep : s.acceptNewClient code newFd = some s') :
    (s.openFds ++ s.acceptedFds code newFd).Perm
      (closedFds (s.acceptCalls code newFd) ++ s'.openFds) := by
  unfold Server.acceptNewClient connectAccept at hstep
  unfold acceptedFds acceptCalls
  split_ifs at hstep with hnew hneg hopen
  · cases hstep
    have hnone : ¬ ((0 < code ∧ s.isNewClient) ∧ 0 ≤ newFd) := fun hall =>
      absurd hall.2 (Int.not_le.mpr hneg)
    rw [if_neg hnone, if_neg hnone, List.append_nil]
    exact .refl _
  · have hsome : (0 < code ∧ s.isNewClient) ∧ 0 ≤ newFd := ⟨hnew, Int.not_lt.mp hneg⟩
    rw [if_pos hsome, if_pos hsome]
    cases hslots : addConnection newFd s.connections.networkConnections with
    | none =>
      simp only [hslots] at hstep ⊢
      cases hstep
      have hclose := perm_closeFd hsome.2 (List.nodup_cons.mpr ⟨hopen, h.nodup⟩)
        List.mem_cons_self
      exact (List.perm_append_singleton _ _).trans hclose
    | some networkConnections =>
      simp only [hslots] at hstep ⊢
      cases hstep
      exact List.perm_append_singleton _ _
  · cases hstep
    have hnone : ¬ ((0 < code ∧ s.isNewClient) ∧ 0 ≤ newFd) := fun hall => hnew hall.1
    rw [if_neg hnone, if_neg hnone, List.append_nil]
    exact .refl _

theorem Ledger.update_balanced (h : Ledger s) {objectId : Nat} {acquired : Bool} {r : Ref}
    {p : ServerPipeline} (hnext : s.pipeline.getNextCompleted objectId acquired = some (r, p)) :
    s.openFds.Perm (closedFds (s.updateNetworkConnectionCalls p r) ++
      (s.updateNetworkConnection p r).openFds) := by
  have hclient : (p.elements r).clientFd ∈ fds s.connections.networkConnections := by
    obtain ⟨hr, hplace, rfl⟩ := h.inv.sited.getNext hnext
    have hfd : ((s.pipeline.modify r (.lockedBy objectId)).elements r).clientFd =
        (s.pipeline.elements r).clientFd := by simp [ServerPipelineElement.lockedBy]
    rw [hfd]
    exact h.inv.accounts.mem_fds_of_carried hr (carried_of_place hplace)
  simp only [updateNetworkConnectionCalls, Server.updateNetworkConnection]
  split_ifs
  · exact perm_closeFd (h.inv.nonneg _ hclient) h.nodup (h.inv.accounts.opened _ hclient)
  · exact .refl _

theorem Ledger.updates_balanced (h : Ledger s) {objectId : Nat} {acquired : List Bool}
    (hstep : Server.updateNetworkConnections objectId acquired s = some s') :
    s.openFds.Perm
      (closedFds (updateNetworkConnectionsCalls objectId acquired s) ++ s'.openFds) := by
  induction acquired generalizing s with
  | nil => cases hstep
  | cons acquired rest ih =>
    rw [Server.updateNetworkConnections] at hstep
    rw [updateNetworkConnectionsCalls]
    cases hnext : s.pipeline.getNextCompleted objectId acquired with
    | none =>
      simp only [hnext] at hstep ⊢
      cases hstep
      exact .refl _
    | some next =>
      obtain ⟨r, p⟩ := next
      simp only [hnext] at hstep ⊢
      have hfirst := h.update_balanced hnext
      have hlater := ih (h.updateNetworkConnection hnext).1 hstep
      rw [closedFds, List.filterMap_append, List.append_assoc]
      exact hfirst.trans (hlater.append_left _)

theorem Ledger.listener_balanced (h : Ledger s) {objectId : Nat} {polling : Polling}
    (hstep : s.serviceListener objectId polling = some s') :
    (s.openFds ++ accepts (.listener objectId polling) s).Perm
      (closes (.listener objectId polling) s ++ s'.openFds) := by
  simp only [Server.serviceListener, Option.bind_eq_bind, Option.bind_eq_some_iff] at hstep
  obtain ⟨u, haccepted, hupdated⟩ := hstep
  have hselected : Ledger { s with connections := (connectSelect ((s.connections.init
      cfg.listenerFd).getMaxFd cfg.listenerFd).2 polling.select).2 } := by
    rw [connectSelect_snd]
    exact h.select _
  have hu := hselected.acceptNewClient haccepted
  have hfirst := hselected.accept_balanced haccepted
  simp only [accepts, closes, listenerCalls, haccepted]
  rw [closedFds, List.filterMap_append, List.append_assoc]
  refine hfirst.trans (List.Perm.append_left _ ?_)
  rw [← publishActive_openFds u polling.publishAcquired]
  split_ifs at hupdated ⊢
  · cases hupdated
    exact .refl _
  · exact (hu.publishActive polling.publishAcquired).updates_balanced hupdated

theorem balanced (cfg : ServerConfig) : (machine cfg).Balanced openFds accepts closes := by
  intro s s' iteration hs hstep
  change step iteration s = some s' at hstep
  have h := ledger_of_reachable hs
  have hsame : s'.openFds = s.openFds → (s.openFds ++ []).Perm ([] ++ s'.openFds) := by
    intro hopen
    rw [hopen, List.append_nil]
    exact .refl _
  have hworker : ∀ {stage}, iteration.stage = some stage →
      accepts iteration s = [] ∧ closes iteration s = [] := by
    intro stage hstage
    cases iteration with
    | listener | maintenance => cases hstage
    | reader | datamodel | writer => exact ⟨rfl, rfl⟩
  rcases step_cases h.inv.sited hstep with
    ⟨objectId, polling, rfl, hpass⟩ | ⟨acquired, rfl, rfl⟩ | ⟨stage, hstage, -, rfl⟩ |
      ⟨r, v, hvisit, hv⟩
  · exact h.listener_balanced hpass
  · exact hsame rfl
  · obtain ⟨haccepts, hcloses⟩ := hworker hstage
    exact haccepts ▸ hcloses ▸ hsame rfl
  · obtain ⟨haccepts, hcloses⟩ := hworker (visit_eq_some hvisit).1
    exact haccepts ▸ hcloses ▸ hsame hv.openFds

/-! ## The end -/

theorem closeConnections_spec {slots : List (Option NetworkConnection)} {openFds : List Int}
    (hdistinct : (fds slots).Nodup) (hopen : ∀ fd ∈ fds slots, fd ∈ openFds)
    (hnodup : openFds.Nodup) :
    (∀ call ∈ (closeConnections slots openFds).calls, call.met = true) ∧
    closedFds (closeConnections slots openFds).calls = (fds slots).filter (0 < ·) ∧
    openFds.Perm (closedFds (closeConnections slots openFds).calls ++
      (closeConnections slots openFds).openFds) := by
  induction slots generalizing openFds with
  | nil => exact ⟨fun _ hcall => absurd hcall List.not_mem_nil, rfl, .refl _⟩
  | cons slot slots ih =>
    cases slot with
    | none => exact ih hdistinct hopen hnodup
    | some c =>
      rw [fds_some, List.nodup_cons] at hdistinct
      rw [fds_some, List.forall_mem_cons] at hopen
      rw [fds_some, closeConnections]
      by_cases hpos : 0 < c.clientFd
      · have hclose := perm_closeFd (Int.le_of_lt hpos) hnodup hopen.1
        have hrest : ∀ fd ∈ fds slots, fd ∈ closeFd c.clientFd openFds := by
          intro fd hfd
          refine (mem_closeFd (Int.le_of_lt hpos)).mpr ⟨hopen.2 fd hfd, ?_⟩
          rintro rfl
          exact hdistinct.1 hfd
        have hleft := (List.nodup_cons.mp (hclose.nodup_iff.mp hnodup)).2
        obtain ⟨hmet, hclosed, hperm⟩ := ih hdistinct.2 hrest hleft
        rw [if_pos hpos]
        refine ⟨List.forall_mem_cons.mpr ⟨?_, hmet⟩, ?_, hclose.trans (hperm.cons _)⟩
        · simpa [ListenerCall.met] using hopen.1
        · rw [List.filter_cons_of_pos (by simpa using hpos), ← hclosed]
          rfl
      · rw [if_neg hpos, List.filter_cons_of_neg (by simpa using hpos)]
        exact ih hdistinct.2 hopen.2 hnodup

theorem Ledger.destroyListener (h : Ledger s) (hlistener : 0 ≤ cfg.listenerFd) :
    (∀ call ∈ s.destroyListener.1, call.met = true) ∧
    s.openFds.Perm (closedFds s.destroyListener.1 ++ s.destroyListener.2.openFds) ∧
    s.destroyListener.2.openFds.Perm
      ((fds s.connections.networkConnections).filter (· = 0)) := by
  obtain ⟨hmet, hclosed, hperm⟩ := closeConnections_spec h.inv.accounts.distinct
    h.inv.accounts.opened h.nodup
  set closed := closeConnections s.connections.networkConnections s.openFds
  have hleft : closed.openFds.Perm (cfg.listenerFd ::
      (fds s.connections.networkConnections).filter (· = 0)) := by
    have hzero : (fds s.connections.networkConnections).filter (fun fd => !decide (0 < fd)) =
        (fds s.connections.networkConnections).filter (· = 0) := by
      refine List.filter_congr fun fd hfd => ?_
      have hnonneg := h.inv.nonneg fd hfd
      rw [Bool.eq_iff_iff, Bool.not_eq_true', decide_eq_false_iff_not, decide_eq_true_eq]
      omega
    have hparts := List.filter_append_perm (fun fd => decide (0 < fd))
      (fds s.connections.networkConnections)
    rw [hzero] at hparts
    rw [hclosed] at hperm
    have hall := (hperm.symm.trans h.openFds).trans (hparts.symm.cons cfg.listenerFd)
    exact (List.perm_append_left_iff _).mp (hall.trans List.perm_middle.symm)
  have hnodup : closed.openFds.Nodup :=
    (List.nodup_append.mp (hperm.nodup_iff.mp h.nodup)).2.1
  have hopen : cfg.listenerFd ∈ closed.openFds := hleft.mem_iff.mpr List.mem_cons_self
  have hlast := perm_closeFd hlistener hnodup hopen
  refine ⟨fun call hcall => ?_, ?_, ?_⟩
  · rcases List.mem_append.mp hcall with hcall | hcall
    · exact hmet call hcall
    · rw [List.mem_singleton.mp hcall]
      simpa [ListenerCall.met] using hopen
  · have hcalls : closedFds s.destroyListener.1 = closedFds closed.calls ++ [cfg.listenerFd] :=
      List.filterMap_append
    rw [hcalls, List.append_assoc]
    exact hperm.trans (hlast.append_left _)
  · exact (hlast.symm.trans hleft).cons_inv

/-- Over the whole life of a listener every descriptor is closed as often as it has been
accepted, and no call meets one that is not open. What stays is a client's descriptor 0. -/
theorem descriptors_released (hlistener : 0 ≤ cfg.listenerFd) {run : List Iteration}
    (hrun : (machine cfg).run run (start cfg) = some s) :
    (∀ call ∈ s.destroyListener.1, call.met = true) ∧
    (cfg.listenerFd :: (machine cfg).collect accepts run (start cfg)).Perm
      ((machine cfg).collect closes run (start cfg) ++ closedFds s.destroyListener.1 ++
        s.destroyListener.2.openFds) ∧
    s.destroyListener.2.openFds.Perm
      ((fds s.connections.networkConnections).filter (· = 0)) := by
  have hledger := ledger_of_reachable (Machine.reachable_of_run hrun)
  obtain ⟨hmet, hclosed, hleft⟩ := hledger.destroyListener hlistener
  have hwhole := (balanced cfg).run .start hrun
  refine ⟨hmet, ?_, hleft⟩
  rw [List.append_assoc]
  exact hwhole.trans (hclosed.append_left _)

theorem descriptors_released_connect :
    ∃ s, (machine shipped).run connect (start shipped) = some s ∧
      s.destroyListener.1 = [.closeFd 4 true, .closeFd 3 true] ∧
      s.destroyListener.2.openFds.Perm [] := by
  have hrun : ((machine shipped).run connect (start shipped)).map (fun s =>
      (s.destroyListener.1, fds s.connections.networkConnections)) =
        some ([.closeFd 4 true, .closeFd 3 true], [4]) := by decide +kernel
  obtain ⟨s, hs, hstate⟩ := Option.map_eq_some_iff.mp hrun
  obtain ⟨hcalls, hfds⟩ := Prod.mk.inj hstate
  obtain ⟨-, -, hleft⟩ := descriptors_released (by decide) hs
  rw [hfds] at hleft
  exact ⟨s, hs, hcalls, hleft⟩

end MultiplexServer.Server

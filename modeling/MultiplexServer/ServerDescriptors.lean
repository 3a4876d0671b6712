import MultiplexServer.ServerConnections

/-! The descriptors of the clients over whole runs: what has been accepted and not yet
closed is what stands in the table, and the listener never closes, removes or unlocks
what is not there. -/

namespace MultiplexServer.Server
open ServerPipeline NetworkConnections

variable {cfg : ServerConfig} {s s' : Server cfg}

/-- A call with which the listener gives up a client or lets it go on, and what the call
has met: an open descriptor, an entry of the table. -/
inductive ListenerCall where
  | closeFd (fd : Int) (isOpen : Bool)
  | removeConnection (fd : Int) (found : Bool)
  | unlockConnection (fd : Int) (found : Bool)
  deriving DecidableEq, Repr

def ListenerCall.met : ListenerCall → Bool
  | .closeFd _ met | .removeConnection _ met | .unlockConnection _ met => met

def ListenerCall.after (openFds : List Int) : ListenerCall → List Int
  | .closeFd fd _ => Server.closeFd fd openFds
  | .removeConnection _ _ | .unlockConnection _ _ => openFds

/-- A new client that finds no free slot is closed at once. -/
def acceptCalls (s : Server cfg) (code newFd : Int) : List ListenerCall :=
  if (0 < code ∧ s.isNewClient) ∧ 0 ≤ newFd then
    match addConnection newFd s.connections.networkConnections with
    | none => [.closeFd newFd ((newFd :: s.openFds).contains newFd)]
    | some _ => []
  else []

def updateNetworkConnectionCalls (s : Server cfg) (p : ServerPipeline) (r : Ref) :
    List ListenerCall :=
  let e := p.elements r
  let slots := s.connections.networkConnections
  if e.isCloseConnectionRequired then
    [.removeConnection e.clientFd (removeConnection e.clientFd slots).isSome,
      .closeFd e.clientFd (s.openFds.contains e.clientFd)]
  else [.unlockConnection e.clientFd (unlockConnection e.clientFd slots).isSome]

def updateNetworkConnectionsCalls (objectId : Nat) : List Bool → Server cfg → List ListenerCall
  | [], _ => []
  | acquired :: rest, s =>
    match s.pipeline.getNextCompleted objectId acquired with
    | none => []
    | some (r, p) => s.updateNetworkConnectionCalls p r ++
        updateNetworkConnectionsCalls objectId rest (s.updateNetworkConnection p r)

def listenerCalls (s : Server cfg) (objectId : Nat) (polling : Polling) : List ListenerCall :=
  let requested := ((s.connections.init cfg.listenerFd).getMaxFd cfg.listenerFd).2
  let selected := connectSelect requested polling.select
  let s := { s with connections := selected.2 }
  s.acceptCalls selected.1 polling.accepted ++
    match s.acceptNewClient selected.1 polling.accepted with
    | none => []
    | some s =>
      if polling.exit then []
      else updateNetworkConnectionsCalls objectId polling.acquired
        (s.publishActive polling.publishAcquired)

/-! ## The calls account for every descriptor that is closed -/

theorem updateNetworkConnections_openFds {objectId : Nat} {acquired : List Bool}
    (hstep : updateNetworkConnections objectId acquired s = some s') :
    s'.openFds =
      (updateNetworkConnectionsCalls objectId acquired s).foldl ListenerCall.after s.openFds := by
  induction acquired generalizing s with
  | nil => cases hstep
  | cons acquired rest ih =>
    rw [Server.updateNetworkConnections] at hstep
    rw [updateNetworkConnectionsCalls]
    cases hnext : s.pipeline.getNextCompleted objectId acquired with
    | none =>
      simp only [hnext] at hstep ⊢
      cases hstep
      rfl
    | some next =>
      obtain ⟨r, p⟩ := next
      simp only [hnext] at hstep ⊢
      have hone : (s.updateNetworkConnection p r).openFds =
          (s.updateNetworkConnectionCalls p r).foldl ListenerCall.after s.openFds := by
        simp only [updateNetworkConnection, updateNetworkConnectionCalls]
        split_ifs <;> rfl
      rw [ih hstep, hone]
      exact List.foldl_append.symm

theorem acceptNewClient_openFds {code newFd : Int}
    (hstep : s.acceptNewClient code newFd = some s') :
    ∃ accepted, (accepted = [] ∨ accepted = [newFd]) ∧
      s'.openFds = (s.acceptCalls code newFd).foldl ListenerCall.after (accepted ++ s.openFds) := by
  unfold acceptNewClient connectAccept at hstep
  unfold acceptCalls
  split_ifs at hstep with hnew hneg hopen
  · cases hstep
    exact ⟨[], .inl rfl, by rw [if_neg fun h => absurd h.2 (Int.not_le.mpr hneg)]; rfl⟩
  · rw [if_pos ⟨hnew, Int.not_lt.mp hneg⟩]
    refine ⟨[newFd], .inr rfl, ?_⟩
    cases hslots : addConnection newFd s.connections.networkConnections with
    | none =>
      simp only [hslots] at hstep ⊢
      cases hstep
      rfl
    | some networkConnections =>
      simp only [hslots] at hstep ⊢
      cases hstep
      rfl
  · cases hstep
    exact ⟨[], .inl rfl, by rw [if_neg fun h => hnew h.1]; rfl⟩

theorem publishActive_openFds (s : Server cfg) (acquired : Bool) :
    (s.publishActive acquired).openFds = s.openFds := by
  simp only [Server.publishActive]
  split_ifs <;> rfl

theorem serviceListener_openFds {objectId : Nat} {polling : Polling}
    (hstep : s.serviceListener objectId polling = some s') :
    ∃ accepted, (accepted = [] ∨ accepted = [polling.accepted]) ∧
      s'.openFds =
        (s.listenerCalls objectId polling).foldl ListenerCall.after (accepted ++ s.openFds) := by
  simp only [Server.serviceListener, Option.bind_eq_bind, Option.bind_eq_some_iff] at hstep
  obtain ⟨u, haccepted, hupdated⟩ := hstep
  obtain ⟨accepted, hone, hopen⟩ := acceptNewClient_openFds haccepted
  refine ⟨accepted, hone, ?_⟩
  simp only [listenerCalls, haccepted, List.foldl_append, ← hopen]
  split_ifs at hupdated ⊢
  · cases hupdated
    exact publishActive_openFds u polling.publishAcquired
  · rw [updateNetworkConnections_openFds hupdated, publishActive_openFds]

/-! ## The ledger -/

/-- Open are the listener's own descriptor and those in the table, which keeps its size. -/
structure Ledger (s : Server cfg) : Prop where
  inv : Inv s
  openFds : s.openFds.Perm (cfg.listenerFd :: fds s.connections.networkConnections)
  slots : s.connections.networkConnections.length = cfg.maximumClients

theorem Ledger.nodup (h : Ledger s) : s.openFds.Nodup :=
  h.openFds.nodup_iff.mpr (List.nodup_cons.mpr ⟨h.inv.notListener, h.inv.accounts.distinct⟩)

theorem Ledger.bounded (h : Ledger s) :
    (fds s.connections.networkConnections).length ≤ cfg.maximumClients := by
  rw [fds, List.length_map, ← h.slots]
  exact List.length_filterMap_le _ _

theorem ledger_start (cfg : ServerConfig) : Ledger (start cfg) where
  inv := inv_start cfg
  openFds := by simp [start, ConnectionAccounts.fds_new]
  slots := List.length_replicate

theorem Ledger.visits (h : Ledger s) {r : Ref} {visit : Visit} (hv : Visits s s' r visit) :
    Ledger s' where
  inv := h.inv.visits hv
  openFds := by rw [hv.openFds, hv.connections]; exact h.openFds
  slots := by rw [hv.connections]; exact h.slots

theorem Ledger.maintain (h : Ledger s) (acquired : Stage → Bool) :
    Ledger { s with pipeline := s.pipeline.doPipelineMaintenance acquired } :=
  { h with inv := h.inv.maintain acquired }

theorem Ledger.select (h : Ledger s) (networkSockets : List Int) :
    Ledger { s with connections := { s.connections with networkSockets } } :=
  { h with inv := h.inv.select networkSockets }

theorem closeFd_eq_erase {fd : Int} {openFds : List Int} (hfd : 0 ≤ fd) (h : openFds.Nodup) :
    closeFd fd openFds = openFds.erase fd := by
  rw [closeFd, if_pos hfd, h.erase_eq_filter]
  simp only [ne_eq, decide_not]
  rfl

theorem Ledger.accept (h : Ledger s) {newFd : Int} (hstep : s.connectAccept newFd = some s') :
    Ledger s' := by
  have hinv := h.inv.accept hstep
  unfold connectAccept at hstep
  split_ifs at hstep with hneg hopen
  · exact Option.some.inj hstep ▸ h
  split at hstep
  · cases hstep
    refine ⟨hinv, ?_, h.slots⟩
    rw [closeFd_eq_erase (Int.not_lt.mp hneg) (List.nodup_cons.mpr ⟨hopen, h.nodup⟩),
      List.erase_cons_head]
    exact h.openFds
  · rename_i slots hslots
    cases hstep
    obtain ⟨hlength, hfds⟩ := addConnection_perm hslots
    refine ⟨hinv, ?_, hlength.trans h.slots⟩
    have hmoved : (newFd :: s.openFds).Perm
        (newFd :: cfg.listenerFd :: fds s.connections.networkConnections) := h.openFds.cons newFd
    exact (hmoved.trans (.swap _ _ _)).trans (hfds.symm.cons _)

theorem Ledger.getActiveConnections (h : Ledger s) :
    Ledger { s with connections := s.connections.getActiveConnections } where
  inv := h.inv.getActiveConnections
  openFds := by rw [fds_getActiveConnections]; exact h.openFds
  slots := by
    simp only [NetworkConnections.getActiveConnections, List.length_map]
    exact h.slots

theorem Ledger.publishActive (h : Ledger s) (acquired : Bool) :
    Ledger (s.publishActive acquired) := by
  have hinv := h.inv.publishActive acquired
  have hactive := h.getActiveConnections
  have htable : (s.publishActive acquired).connections.networkConnections =
      s.connections.getActiveConnections.networkConnections := by
    simp only [Server.publishActive]
    split_ifs <;> rfl
  refine ⟨hinv, ?_, ?_⟩
  · rw [htable, publishActive_openFds]
    exact hactive.openFds
  · rw [htable]
    exact hactive.slots

theorem Ledger.updateNetworkConnection (h : Ledger s) {objectId : Nat} {acquired : Bool}
    {r : Ref} {p : ServerPipeline}
    (hnext : s.pipeline.getNextCompleted objectId acquired = some (r, p)) :
    Ledger (s.updateNetworkConnection p r) ∧
      ∀ call ∈ s.updateNetworkConnectionCalls p r, call.met = true := by
  have hinv := h.inv.updateNetworkConnection hnext
  obtain ⟨hr, hplace, rfl⟩ := h.inv.sited.getNext hnext
  have hcarried := carried_of_place hplace
  have hclient := h.inv.accounts.mem_fds_of_carried hr hcarried
  have hlocked := h.inv.accounts.locked_of_carried hr hcarried
  have hopen := h.inv.accounts.opened _ hclient
  have hnonneg := h.inv.nonneg _ hclient
  have hfd : ((s.pipeline.modify r (.lockedBy objectId)).elements r).clientFd =
      (s.pipeline.elements r).clientFd := by simp [ServerPipelineElement.lockedBy]
  have hclose : ((s.pipeline.modify r (.lockedBy objectId)).elements r).isCloseConnectionRequired =
      (s.pipeline.elements r).isCloseConnectionRequired := by
    simp [ServerPipelineElement.lockedBy]
  simp only [updateNetworkConnectionCalls, hfd, hclose]
  cases hrequired : (s.pipeline.elements r).isCloseConnectionRequired with
  | true =>
    obtain ⟨slots, hslots⟩ : ∃ slots, removeConnection (s.pipeline.elements r).clientFd
        s.connections.networkConnections = some slots := changeLocked_isSome hlocked
    have hupdate := updateNetworkConnection_eq h.inv hnext slots (by rw [hrequired]; exact hslots)
    obtain ⟨hlength, hfds⟩ := removeConnection_perm hslots
    have hmoved := (h.openFds.trans (hfds.cons _)).trans (.swap _ _ _)
    refine ⟨⟨hinv, ?_, ?_⟩, ?_⟩
    · rw [hupdate]
      simp only [hrequired, if_true]
      rw [closeFd_eq_erase hnonneg h.nodup]
      simpa using hmoved.erase (s.pipeline.elements r).clientFd
    · rw [hupdate]
      exact hlength.trans h.slots
    · simp [hslots, ListenerCall.met, hopen]
  | false =>
    obtain ⟨slots, hslots⟩ : ∃ slots, unlockConnection (s.pipeline.elements r).clientFd
        s.connections.networkConnections = some slots := changeLocked_isSome hlocked
    have hupdate := updateNetworkConnection_eq h.inv hnext slots (by rw [hrequired]; exact hslots)
    obtain ⟨hlength, hfds⟩ := unlockConnection_fds hslots
    refine ⟨⟨hinv, ?_, ?_⟩, ?_⟩
    · rw [hupdate]
      simp only [hrequired, hfds]
      exact h.openFds
    · rw [hupdate]
      exact hlength.trans h.slots
    · simp [hslots, ListenerCall.met]

theorem Ledger.updateNetworkConnections (h : Ledger s) {objectId : Nat} {acquired : List Bool}
    (hstep : updateNetworkConnections objectId acquired s = some s') :
    Ledger s' ∧ ∀ call ∈ updateNetworkConnectionsCalls objectId acquired s, call.met = true := by
  induction acquired generalizing s with
  | nil => cases hstep
  | cons acquired rest ih =>
    rw [Server.updateNetworkConnections] at hstep
    rw [updateNetworkConnectionsCalls]
    cases hnext : s.pipeline.getNextCompleted objectId acquired with
    | none =>
      simp only [hnext] at hstep ⊢
      exact ⟨Option.some.inj hstep ▸ h, fun _ hcall => absurd hcall List.not_mem_nil⟩
    | some next =>
      obtain ⟨r, p⟩ := next
      simp only [hnext] at hstep ⊢
      obtain ⟨hledger, hcalls⟩ := h.updateNetworkConnection hnext
      obtain ⟨hlast, hrest⟩ := ih hledger hstep
      refine ⟨hlast, fun call hcall => ?_⟩
      rcases List.mem_append.mp hcall with hcall | hcall
      · exact hcalls call hcall
      · exact hrest call hcall

theorem acceptCalls_met (s : Server cfg) (code newFd : Int) :
    ∀ call ∈ s.acceptCalls code newFd, call.met = true := by
  unfold acceptCalls
  split_ifs
  · split
    · simp [ListenerCall.met]
    · exact fun _ hcall => absurd hcall List.not_mem_nil
  · exact fun _ hcall => absurd hcall List.not_mem_nil

theorem Ledger.serviceListener (h : Ledger s) {objectId : Nat} {polling : Polling}
    (hstep : s.serviceListener objectId polling = some s') :
    Ledger s' ∧ ∀ call ∈ s.listenerCalls objectId polling, call.met = true := by
  simp only [Server.serviceListener, Option.bind_eq_bind, Option.bind_eq_some_iff] at hstep
  obtain ⟨u, haccepted, hupdated⟩ := hstep
  simp only [listenerCalls, haccepted]
  have hu : Ledger u := by
    rw [connectSelect_snd] at haccepted
    unfold acceptNewClient at haccepted
    split_ifs at haccepted
    · exact (h.select _).accept haccepted
    · exact Option.some.inj haccepted ▸ h.select _
  have hpublished := hu.publishActive polling.publishAcquired
  cases hexit : polling.exit with
  | true =>
    rw [if_pos hexit] at hupdated
    refine ⟨Option.some.inj hupdated ▸ hpublished, fun call hcall => ?_⟩
    exact acceptCalls_met _ _ _ call (by simpa using hcall)
  | false =>
    rw [if_neg (by simp [hexit])] at hupdated
    obtain ⟨hlast, hcalls⟩ := hpublished.updateNetworkConnections hupdated
    refine ⟨hlast, fun call hcall => ?_⟩
    rcases List.mem_append.mp hcall with hcall | hcall
    · exact acceptCalls_met _ _ _ call hcall
    · exact hcalls call hcall

theorem Ledger.step (h : Ledger s) {iteration : Iteration} (hstep : step iteration s = some s') :
    Ledger s' := by
  rcases step_cases h.inv.sited hstep with
    ⟨objectId, polling, rfl, hpass⟩ | ⟨acquired, rfl, rfl⟩ | ⟨-, -, -, rfl⟩ | ⟨r, v, -, hv⟩
  · exact (h.serviceListener hpass).1
  · exact h.maintain acquired
  · exact h
  · exact h.visits hv

theorem ledger_of_reachable (h : (machine cfg).Reachable s) : Ledger s :=
  h.invariant (ledger_start cfg) fun _ _ _ _ hs hstep => hs.step hstep

/-- The descriptors of the clients are those in the table, no more of them than there may
be, and no call of the listener is about a descriptor or an entry that is not there. -/
theorem descriptors_accounted (h : (machine cfg).Reachable s) :
    (s.openFds.Perm (cfg.listenerFd :: fds s.connections.networkConnections) ∧
      s.openFds.Nodup ∧ (fds s.connections.networkConnections).length ≤ cfg.maximumClients) ∧
    ∀ objectId polling s', s.serviceListener objectId polling = some s' →
      (∀ call ∈ s.listenerCalls objectId polling, call.met = true) ∧
      ∃ accepted, (accepted = [] ∨ accepted = [polling.accepted]) ∧
        s'.openFds =
          (s.listenerCalls objectId polling).foldl ListenerCall.after (accepted ++ s.openFds) := by
  have hledger : Ledger s := h.invariant (ledger_start cfg) fun _ _ _ _ hs hstep => hs.step hstep
  exact ⟨⟨hledger.openFds, hledger.nodup, hledger.bounded⟩,
    fun _ _ _ hstep => ⟨(hledger.serviceListener hstep).2, serviceListener_openFds hstep⟩⟩

theorem descriptors_accounted_hangUp :
    ∃ s, (machine shipped).run (connect ++ [.reader 1 true 0 [.bytes []]]) (start shipped) =
        some s ∧
      s.listenerCalls 0 ⟨.ready [], -1, true, false, [true, true]⟩ =
        [.removeConnection 4 true, .closeFd 4 true] ∧
      s.openFds.Perm [3, 4] := by
  have hrun : ((machine shipped).run (connect ++ [.reader 1 true 0 [.bytes []]])
      (start shipped)).map (fun s => (s.listenerCalls 0 ⟨.ready [], -1, true, false, [true, true]⟩,
        fds s.connections.networkConnections)) =
      some ([.removeConnection 4 true, .closeFd 4 true], [4]) := by decide +kernel
  obtain ⟨s, hs, hstate⟩ := Option.map_eq_some_iff.mp hrun
  obtain ⟨hcalls, hfds⟩ := Prod.mk.inj hstate
  refine ⟨s, hs, hcalls, ?_⟩
  have hopen := (descriptors_accounted (Machine.reachable_of_run hs)).1.1
  rwa [hfds] at hopen

end MultiplexServer.Server

import MultiplexServer.ServerConnections

/-! Which connections one pass of the listener hands to the pipeline. The descriptor
set is the question put to `select` and also its answer, and a call that fails does
not write the answer. -/

namespace MultiplexServer.Server
open NetworkConnections

variable {cfg : ServerConfig}

/-- The pass up to the call of `get_active_connections`. -/
def poll (s : Server cfg) (polling : Polling) : Option (Server cfg) :=
  let requested := ((s.connections.init cfg.listenerFd).getMaxFd cfg.listenerFd).2
  let selected := connectSelect requested polling.select
  acceptNewClient { s with connections := selected.2 } selected.1 polling.accepted

theorem serviceListener_eq_poll (s : Server cfg) (objectId : Nat) (polling : Polling) :
    s.serviceListener objectId polling = (s.poll polling).bind fun s =>
      let s := s.publishActive polling.publishAcquired
      if polling.exit then some s else updateNetworkConnections objectId polling.acquired s :=
  rfl

def requestedFds (s : Server cfg) : List Int :=
  cfg.listenerFd :: (fds s.connections.networkConnections).filter (0 < ·)

/-- What it reports: some of what it was asked about, and nothing when it fails. -/
def reportedFds (s : Server cfg) : SelectOutcome → List Int
  | .ready fds => s.requestedFds.filter (fds.contains ·)
  | .interrupted => []
  | .error => []

def afterSelect (s : Server cfg) (outcome : SelectOutcome) : Server cfg :=
  let requested := ((s.connections.init cfg.listenerFd).getMaxFd cfg.listenerFd).2
  { s with connections := (connectSelect requested outcome).2 }

theorem afterSelect_networkConnections (s : Server cfg) (outcome : SelectOutcome) :
    (s.afterSelect outcome).connections.networkConnections =
      s.connections.networkConnections := by
  cases outcome <;> rfl

theorem poll_eq (s : Server cfg) (polling : Polling) :
    s.poll polling =
      if cfg.listenerFd ∈ s.reportedFds polling.select then
        (s.afterSelect polling.select).connectAccept polling.accepted
      else some (s.afterSelect polling.select) := by
  cases hselect : polling.select with
  | ready ready =>
    have hset : (s.afterSelect (.ready ready)).connections.networkSockets =
        s.reportedFds (.ready ready) := rfl
    unfold poll acceptNewClient
    rw [hselect]
    refine if_congr ?_ rfl rfl
    change 0 < ((s.reportedFds (.ready ready)).length : Int) ∧
      (s.afterSelect (.ready ready)).isNewClient = true ↔ _
    rw [isNewClient, hset, List.contains_iff_mem]
    refine ⟨And.right, fun hmem => ⟨?_, hmem⟩⟩
    exact Int.natCast_pos.mpr (List.length_pos_of_mem hmem)
  | interrupted | error =>
    unfold poll acceptNewClient
    rw [hselect]
    exact if_congr (iff_of_false (by simp [connectSelect]) List.not_mem_nil) rfl rfl

def Readable (reported : List Int) (c : NetworkConnection) : Prop :=
  c.locked = false ∧ 0 < c.clientFd ∧ c.clientFd ∈ reported

instance (reported : List Int) (c : NetworkConnection) : Decidable (Readable reported c) :=
  inferInstanceAs (Decidable (_ ∧ _))

structure Dispatches (reported : List Int) (t t' : NetworkConnections) : Prop where
  locks : t'.networkConnections = t.networkConnections.map (Option.map fun c =>
    if Readable reported c then { c with locked := true } else c)
  appends : t'.activeConnections = t.activeConnections ++
    ((table t.networkConnections).filter (Readable reported ·)).map NetworkConnection.clientFd

def DispatchesReadable (s : Server cfg) (polling : Polling) : Prop :=
  ∀ s', s.poll polling = some s' →
    Dispatches (s.reportedFds polling.select) s'.connections s'.connections.getActiveConnections

theorem connectAccept_connections {s s' : Server cfg} {newFd : Int}
    (h : s.connectAccept newFd = some s') :
    s'.connections = { s.connections with
      networkConnections := s'.connections.networkConnections } := by
  unfold connectAccept at h
  split at h
  · cases h
    rfl
  · split at h
    · cases h
    · split at h <;>
      · cases h
        rfl

theorem poll_ready {s s' : Server cfg} {polling : Polling} {fds : List Int}
    (hready : polling.select = .ready fds) (h : s.poll polling = some s') :
    s'.connections.networkSockets = s.reportedFds polling.select := by
  rw [hready]
  simp only [poll, acceptNewClient, hready] at h
  split at h
  · rw [connectAccept_connections h]
    rfl
  · cases h
    rfl

theorem poll_failed {s : Server cfg} {polling : Polling}
    (hfailed : polling.select = .interrupted ∨ polling.select = .error) :
    s.poll polling = some { s with
      connections := { s.connections with networkSockets := s.requestedFds } } := by
  unfold poll acceptNewClient
  rcases hfailed with hselect | hselect <;> rw [hselect] <;> exact if_neg (by simp [connectSelect])

theorem ready_iff_readable (sockets : List Int) (c : NetworkConnection) :
    ready sockets c = true ↔ Readable sockets c := by
  simp only [ready, Readable, Bool.and_eq_true, decide_eq_true_eq, List.contains_iff_mem,
    Bool.not_eq_true']
  tauto

theorem dispatches_sockets (t : NetworkConnections) :
    Dispatches t.networkSockets t t.getActiveConnections where
  locks := by simp only [getActiveConnections, ready_iff_readable]
  appends := by
    have hsame : (ready t.networkSockets) = fun c => decide (Readable t.networkSockets c) := by
      funext c
      rw [Bool.eq_iff_iff, ready_iff_readable, decide_eq_true_iff]
    simp only [getActiveConnections, hsame]

theorem ready_of_failed {s : Server cfg} {c : NetworkConnection}
    (hc : c ∈ table s.connections.networkConnections) (hfd : 0 < c.clientFd)
    (hfree : c.locked = false) : Readable s.requestedFds c := by
  refine ⟨hfree, hfd, List.mem_cons_of_mem _ (List.mem_filter.mpr ⟨?_, by simpa using hfd⟩)⟩
  exact List.mem_map.mpr ⟨c, hc, rfl⟩

/-- Exactly the readable connections are dispatched in a pass, unless `select` fails
while a client is idle: then all idle clients are. -/
theorem dispatchesReadable_iff (s : Server cfg) (polling : Polling) :
    DispatchesReadable s polling ↔
      (∃ fds, polling.select = .ready fds) ∨
      ∀ c ∈ table s.connections.networkConnections, 0 < c.clientFd → c.locked = true := by
  by_cases hready : ∃ fds, polling.select = .ready fds
  · refine iff_of_true (fun s' h => ?_) (.inl hready)
    obtain ⟨fds, hselect⟩ := hready
    rw [← poll_ready hselect h]
    exact dispatches_sockets s'.connections
  have hfailed : polling.select = .interrupted ∨ polling.select = .error := by
    cases hselect : polling.select with
    | ready fds => exact absurd ⟨fds, hselect⟩ hready
    | interrupted => exact .inl rfl
    | error => exact .inr rfl
  have hnone : s.reportedFds polling.select = [] := by
    rcases hfailed with hselect | hselect <;> rw [hselect] <;> rfl
  have hnever : ∀ c, ¬ Readable [] c := fun c h => List.not_mem_nil h.2.2
  have hactual := dispatches_sockets { s.connections with networkSockets := s.requestedFds }
  constructor
  · refine fun h => .inr fun c hc hfd => ?_
    by_contra hfree
    have hclaim := (h _ (poll_failed hfailed)).appends
    rw [hactual.appends, hnone] at hclaim
    have hlist := List.append_cancel_left hclaim
    simp only [hnever, decide_false, List.filter_false, List.map_nil, List.map_eq_nil_iff,
      List.filter_eq_nil_iff, decide_eq_true_eq] at hlist
    exact hlist c hc (ready_of_failed hc hfd (by simpa using hfree))
  · rintro (hsome | hlocked) s' h
    · exact absurd hsome hready
    · rw [poll_failed hfailed] at h
      cases h
      have hidle : ∀ c ∈ table s.connections.networkConnections,
          (Readable s.requestedFds c ↔ Readable [] c) := by
        intro c hc
        refine iff_of_false (fun hread => ?_) (hnever c)
        exact absurd (hlocked c hc hread.2.1) (by simp [hread.1])
      rw [hnone]
      constructor
      · rw [hactual.locks]
        refine List.map_congr_left fun slot hslot => ?_
        cases slot with
        | none => rfl
        | some c =>
          have hc : c ∈ table s.connections.networkConnections :=
            List.mem_filterMap.mpr ⟨some c, hslot, rfl⟩
          simp only [Option.map_some, hidle c hc]
      · rw [hactual.appends]
        congr 2
        exact List.filter_congr fun c hc => by rw [decide_eq_decide]; exact hidle c hc

/-- The client on descriptor 4 has connected and sent nothing when a signal arrives:
it is locked, and its element waits for a reader. -/
theorem interrupted_dispatches :
    ∃ s, (machine shipped).run (connect.take 1) (start shipped) = some s ∧
      table s.connections.networkConnections = [⟨4, false⟩] ∧
      (s.serviceListener 0 ⟨.interrupted, -1, true, false, [true]⟩).map (fun s' =>
        (table s'.connections.networkConnections, decide (s'.pipeline.Eligible .request 0))) =
        some ([⟨4, true⟩], true) ∧
      ¬ DispatchesReadable s ⟨.interrupted, -1, true, false, [true]⟩ := by
  have hrun : ((machine shipped).run (connect.take 1) (start shipped)).map (fun s =>
      (table s.connections.networkConnections,
        (s.serviceListener 0 ⟨.interrupted, -1, true, false, [true]⟩).map fun s' =>
          (table s'.connections.networkConnections, decide (s'.pipeline.Eligible .request 0)))) =
      some ([⟨4, false⟩], some ([⟨4, true⟩], true)) := by decide
  obtain ⟨s, hs, hstate⟩ := Option.map_eq_some_iff.mp hrun
  obtain ⟨htable, hpass⟩ := Prod.mk.inj hstate
  refine ⟨s, hs, htable, hpass, fun h => ?_⟩
  rcases (dispatchesReadable_iff s _).mp h with ⟨fds, hselect⟩ | hlocked
  · cases hselect
  · have := hlocked ⟨4, false⟩ (by simp [htable]) (by decide)
    cases this

end MultiplexServer.Server

import MultiplexServer.ServerDispatch

/-! The descriptors the listener puts into an `fd_set` and looks up in it. `FD_SET` and
`FD_ISSET` are defined below `FD_SETSIZE` only; whether a descriptor is that small is
decided where it is accepted. -/

namespace MultiplexServer.Server
open NetworkConnections

variable {cfg : ServerConfig} {s s' : Server cfg} {polling : Polling}

def fdSetSize : Int := 1024

/-- The descriptors on which `get_max_fd` executes `FD_SET`, and on the table it finds
`get_active_connections` executes `FD_ISSET`. -/
def clientFds (t : NetworkConnections) : List Int :=
  (fds t.networkConnections).filter (0 < ·)

def FitsSet (fd : Int) : Prop := 0 ≤ fd ∧ fd < fdSetSize

structure FitsFdSet (s : Server cfg) (polling : Polling) : Prop where
  sets : ∀ fd ∈ clientFds s.connections, FitsSet fd
  nfds : ((s.connections.init cfg.listenerFd).getMaxFd cfg.listenerFd).1 + 1 ≤ fdSetSize
  tests : ∀ s', s.poll polling = some s' → ∀ fd ∈ clientFds s'.connections, FitsSet fd

structure Admits (s : Server cfg) (polling : Polling) : Prop where
  reported : cfg.listenerFd ∈ s.reportedFds polling.select
  accepted : 0 ≤ polling.accepted
  closed : polling.accepted ∉ s.openFds
  free : none ∈ s.connections.networkConnections

/-- The listening descriptor and the one that is admitted in this pass, if there is one,
are small enough. -/
structure Selectable (s : Server cfg) (polling : Polling) : Prop where
  listener : cfg.listenerFd < fdSetSize
  admitted : Admits s polling → polling.accepted < fdSetSize

def OfListener (P : Server cfg → Polling → Prop) : Iteration → Server cfg → Prop
  | .listener _ polling, s => P s polling
  | _, _ => True

/-! ## What a pass adds to the table -/

theorem addConnection_of_free (newFd : Int) {slots : List (Option NetworkConnection)}
    (h : none ∈ slots) : ∃ slots', addConnection newFd slots = some slots' := by
  induction slots with
  | nil => cases h
  | cons slot slots ih =>
    cases slot with
    | none => exact ⟨_, rfl⟩
    | some c =>
      obtain ⟨slots', hslots⟩ := ih (by simpa using h)
      exact ⟨some c :: slots', by rw [addConnection, hslots]; rfl⟩

theorem connectAccept_fds {newFd : Int} (h : s.connectAccept newFd = some s') :
    (0 ≤ newFd ∧ newFd ∉ s.openFds ∧ none ∈ s.connections.networkConnections ∧
      (fds s'.connections.networkConnections).Perm
        (newFd :: fds s.connections.networkConnections)) ∨
    fds s'.connections.networkConnections = fds s.connections.networkConnections := by
  unfold connectAccept at h
  split_ifs at h with hneg hopen
  · cases h
    exact .inr rfl
  cases hslots : addConnection newFd s.connections.networkConnections with
  | none =>
    simp only [hslots] at h
    cases h
    exact .inr rfl
  | some slots =>
    simp only [hslots] at h
    cases h
    obtain ⟨xs, ys, hsplit, -⟩ := addConnection_eq_some hslots
    exact .inl ⟨Int.not_lt.mp hneg, hopen, by simp [hsplit], (addConnection_perm hslots).2⟩

theorem fds_of_poll (h : s.poll polling = some s') :
    (Admits s polling ∧ (fds s'.connections.networkConnections).Perm
      (polling.accepted :: fds s.connections.networkConnections)) ∨
    fds s'.connections.networkConnections = fds s.connections.networkConnections := by
  have hsame := afterSelect_networkConnections s polling.select
  rw [poll_eq] at h
  split_ifs at h with hreported
  · have hadded := connectAccept_fds h
    rw [hsame] at hadded
    rcases hadded with ⟨hpos, hclosed, hfree, hperm⟩ | heq
    · exact .inl ⟨⟨hreported, hpos, hclosed, hfree⟩, hperm⟩
    · exact .inr heq
  · cases h
    exact .inr (by rw [hsame])

theorem poll_of_admits (h : Admits s polling) :
    ∃ s', s.poll polling = some s' ∧ polling.accepted ∈ fds s'.connections.networkConnections := by
  obtain ⟨slots, hslots⟩ := addConnection_of_free polling.accepted h.free
  have hclosed : polling.accepted ∉ (s.afterSelect polling.select).openFds := h.closed
  rw [poll_eq, if_pos h.reported, connectAccept, if_neg (Int.not_lt.mpr h.accepted),
    if_neg hclosed, afterSelect_networkConnections, hslots]
  refine ⟨_, rfl, ?_⟩
  exact (addConnection_perm hslots).2.mem_iff.mpr List.mem_cons_self

/-! ## What an iteration leaves in the table -/

theorem updateNetworkConnection_fds (s : Server cfg) (p : ServerPipeline) (r : Ref) :
    fds (s.updateNetworkConnection p r).connections.networkConnections ⊆
      fds s.connections.networkConnections := by
  simp only [updateNetworkConnection]
  split_ifs
  · cases hslots : removeConnection (p.elements r).clientFd s.connections.networkConnections with
    | none => exact List.Subset.refl _
    | some slots =>
      intro fd hfd
      exact (removeConnection_perm hslots).2.mem_iff.mpr (List.mem_cons_of_mem _ hfd)
  · cases hslots : unlockConnection (p.elements r).clientFd s.connections.networkConnections with
    | none => exact List.Subset.refl _
    | some slots =>
      simp only [Option.getD_some, (unlockConnection_fds hslots).2]
      exact List.Subset.refl _

theorem updateNetworkConnections_fds {objectId : Nat} {acquired : List Bool}
    (h : updateNetworkConnections objectId acquired s = some s') :
    fds s'.connections.networkConnections ⊆ fds s.connections.networkConnections := by
  induction acquired generalizing s with
  | nil => cases h
  | cons acquired rest ih =>
    rw [updateNetworkConnections] at h
    cases hnext : s.pipeline.getNextCompleted objectId acquired with
    | none =>
      simp only [hnext] at h
      cases h
      exact List.Subset.refl _
    | some next =>
      obtain ⟨r, p⟩ := next
      simp only [hnext] at h
      exact List.Subset.trans (ih h) (updateNetworkConnection_fds s p r)

theorem publishActive_fds (s : Server cfg) (acquired : Bool) :
    fds (s.publishActive acquired).connections.networkConnections =
      fds s.connections.networkConnections := by
  have hsame := fds_getActiveConnections s.connections
  simp only [publishActive]
  split_ifs <;> exact hsame

theorem serviceListener_fds {objectId : Nat} (h : s.serviceListener objectId polling = some s') :
    ∃ u, s.poll polling = some u ∧
      fds s'.connections.networkConnections ⊆ fds u.connections.networkConnections := by
  rw [serviceListener_eq_poll] at h
  obtain ⟨u, hpoll, hrest⟩ := Option.bind_eq_some_iff.mp h
  refine ⟨u, hpoll, ?_⟩
  rw [← publishActive_fds u polling.publishAcquired]
  simp only at hrest
  split_ifs at hrest
  · cases hrest
    exact List.Subset.refl _
  · exact updateNetworkConnections_fds hrest

theorem step_connections {iteration : Iteration} (h : step iteration s = some s')
    (hother : ∀ objectId polling, iteration ≠ .listener objectId polling) :
    s'.connections = s.connections := by
  cases iteration with
  | listener objectId polling => exact absurd rfl (hother objectId polling)
  | maintenance acquired =>
    cases h
    rfl
  | datamodel objectId acquired =>
    cases h
    simp only [serviceDatamodel]
    split <;> rfl
  | reader objectId acquired setsockopt events =>
    simp only [step, serviceReader] at h
    split at h
    · cases h
      rfl
    · split at h <;> cases h
      rfl
  | writer objectId acquired setsockopt events =>
    simp only [step, serviceWriter] at h
    split at h
    · cases h
      rfl
    · split at h <;> cases h
      rfl

/-! ## Passes that keep below the size of the set -/

def SmallTable (s : Server cfg) : Prop :=
  ∀ fd ∈ fds s.connections.networkConnections, fd < fdSetSize

theorem foldl_max_lt {fds : List Int} {fd bound : Int} :
    fds.foldl max fd < bound ↔ fd < bound ∧ ∀ x ∈ fds, x < bound := by
  induction fds generalizing fd with
  | nil => simp
  | cons x fds ih => rw [List.foldl_cons, ih, Int.max_lt, List.forall_mem_cons, and_assoc]

theorem mem_clientFds {t : NetworkConnections} {fd : Int} :
    fd ∈ clientFds t ↔ fd ∈ fds t.networkConnections ∧ 0 < fd := by
  rw [clientFds, List.mem_filter, decide_eq_true_iff]

theorem fitsFdSet_iff_selectable (h : SmallTable s) (polling : Polling) :
    FitsFdSet s polling ↔ Selectable s polling := by
  have hmax : ((s.connections.init cfg.listenerFd).getMaxFd cfg.listenerFd).1 + 1 ≤ fdSetSize ↔
      cfg.listenerFd < fdSetSize := by
    change (fds s.connections.networkConnections).foldl max cfg.listenerFd < fdSetSize ↔ _
    rw [foldl_max_lt]
    exact and_iff_left h
  constructor
  · refine fun hfits => ⟨hmax.mp hfits.nfds, fun hadmits => ?_⟩
    obtain ⟨s', hpoll, hmem⟩ := poll_of_admits hadmits
    by_cases hpos : 0 < polling.accepted
    · exact (hfits.tests s' hpoll _ (mem_clientFds.mpr ⟨hmem, hpos⟩)).2
    · exact Int.lt_of_le_of_lt (Int.not_lt.mp hpos) (by decide)
  · refine fun hsmall => ⟨fun fd hfd => ?_, hmax.mpr hsmall.listener, fun s' hpoll fd hfd => ?_⟩
    · obtain ⟨hmem, hpos⟩ := mem_clientFds.mp hfd
      exact ⟨Int.le_of_lt hpos, h fd hmem⟩
    · obtain ⟨hmem, hpos⟩ := mem_clientFds.mp hfd
      refine ⟨Int.le_of_lt hpos, ?_⟩
      rcases fds_of_poll hpoll with ⟨hadmits, hperm⟩ | hsame
      · rcases List.mem_cons.mp (hperm.mem_iff.mp hmem) with rfl | hold
        · exact hsmall.admitted hadmits
        · exact h fd hold
      · exact h fd (hsame ▸ hmem)

theorem SmallTable.listener {objectId : Nat} (h : SmallTable s) (hsmall : Selectable s polling)
    (hstep : s.serviceListener objectId polling = some s') : SmallTable s' := by
  obtain ⟨u, hpoll, hsubset⟩ := serviceListener_fds hstep
  intro fd hfd
  have hmem := hsubset hfd
  rcases fds_of_poll hpoll with ⟨hadmits, hperm⟩ | hsame
  · rcases List.mem_cons.mp (hperm.mem_iff.mp hmem) with rfl | hold
    · exact hsmall.admitted hadmits
    · exact h fd hold
  · exact h fd (hsame ▸ hmem)

theorem SmallTable.step (h : SmallTable s) {iteration : Iteration}
    (hsmall : OfListener Selectable iteration s) (hstep : step iteration s = some s') :
    SmallTable s' := by
  cases iteration with
  | listener objectId polling => exact h.listener hsmall hstep
  | reader | datamodel | writer | maintenance =>
    unfold SmallTable
    rw [step_connections hstep (by simp)]
    exact h

theorem smallTable_start (cfg : ServerConfig) : SmallTable (start cfg) := by
  intro fd hfd
  simp [start, NetworkConnections.new, fds, table] at hfd

/-- All along a run every descriptor fits the set exactly when, all along it, those that
are admitted do, and the listener's own. -/
theorem fitsFdSet_along_iff (cfg : ServerConfig) (run : List Iteration) :
    (machine cfg).Along (OfListener FitsFdSet) run (start cfg) ↔
      (machine cfg).Along (OfListener Selectable) run (start cfg) := by
  refine Machine.along_congr (I := SmallTable) ?_ ?_ (smallTable_start cfg)
  · intro iteration _ s hs
    cases iteration with
    | listener objectId polling => exact fitsFdSet_iff_selectable hs polling
    | reader | datamodel | writer | maintenance => exact Iff.rfl
  · intro iteration _ s s' hs hsmall hstep
    exact hs.step hsmall hstep

/-! ## More clients than the set has bits -/

def crowded : ServerConfig := { shipped with maximumClients := 10000 }

def arrive (n : Nat) : Iteration := .listener 0 ⟨.ready [3], 4 + n, true, false, [true]⟩

def silent (n : Nat) : NetworkConnection := ⟨4 + n, false⟩

structure Crowd (n : Nat) (s : Server crowded) : Prop where
  slots : s.connections.networkConnections =
    ((List.range n).map silent).map some ++ List.replicate (10000 - n) none
  openFds : ∀ fd ∈ s.openFds, fd < 4 + n
  pending : s.connections.activeConnections = []
  completed : (s.pipeline.pipe .completed).isEmpty = true

theorem crowd_start : Crowd 0 (start crowded) where
  slots := rfl
  openFds fd hfd := by
    rw [List.mem_singleton.mp hfd]
    decide
  pending := rfl
  completed := rfl

theorem addConnection_map_some (newFd : Int) (xs : List NetworkConnection)
    (ys : List (Option NetworkConnection)) :
    addConnection newFd (xs.map some ++ none :: ys) =
      some (xs.map some ++ some ⟨newFd, false⟩ :: ys) := by
  induction xs with
  | nil => rfl
  | cons x xs ih => simp only [List.map_cons, List.cons_append, addConnection, ih, Option.map_some]

theorem getActiveConnections_of_none_ready {t : NetworkConnections}
    (h : ∀ c, some c ∈ t.networkConnections → ready t.networkSockets c = false) :
    t.getActiveConnections = t := by
  have hslot : ∀ slot ∈ t.networkConnections, (Option.map fun c =>
      if ready t.networkSockets c then { c with locked := true } else c) slot = id slot := by
    intro slot hslot
    cases slot with
    | none => rfl
    | some c => simp [h c hslot]
  have hslots := (List.map_congr_left hslot).trans (List.map_id _)
  have hnone : (table t.networkConnections).filter (ready t.networkSockets) = [] := by
    refine List.filter_eq_nil_iff.mpr fun c hc => ?_
    obtain ⟨slot, hslot, rfl⟩ := List.mem_filterMap.mp hc
    simp [h c hslot]
  simp only [getActiveConnections, hslots, hnone, List.map_nil, List.append_nil]

theorem Crowd.poll {n : Nat} {s : Server crowded} (h : Crowd n s) (hn : n < 10000) :
    ∃ u, s.poll ⟨.ready [3], 4 + n, true, false, [true]⟩ = some u ∧ Crowd (n + 1) u ∧
      u.connections.networkSockets = s.reportedFds (.ready [3]) := by
  have hfree : List.replicate (10000 - n) (none : Option NetworkConnection) =
      none :: List.replicate (10000 - (n + 1)) none := by
    rw [← List.replicate_succ]
    congr 1
    omega
  have hslots : addConnection (4 + n) s.connections.networkConnections =
      some (((List.range (n + 1)).map silent).map some ++
        List.replicate (10000 - (n + 1)) none) := by
    rw [h.slots, hfree, addConnection_map_some, List.range_succ, List.map_append, List.map_append,
      List.append_assoc]
    rfl
  have hclosed : (4 + n : Int) ∉ (s.afterSelect (.ready [3])).openFds := by
    intro hopen
    exact absurd (h.openFds _ hopen) (Int.lt_irrefl _)
  have hreported : crowded.listenerFd ∈ s.reportedFds (.ready [3]) :=
    List.mem_filter.mpr ⟨List.mem_cons_self, rfl⟩
  have hpositive : ¬ (4 + n : Int) < 0 := by omega
  rw [poll_eq, if_pos hreported, connectAccept, if_neg hpositive, if_neg hclosed,
    afterSelect_networkConnections, hslots]
  refine ⟨_, rfl, ⟨rfl, fun fd hfd => ?_, h.pending, h.completed⟩, rfl⟩
  rcases List.mem_cons.mp hfd with hnew | hold
  · rw [hnew]
    push_cast
    omega
  · have := h.openFds fd hold
    omega

theorem Crowd.arrive {n : Nat} {s : Server crowded} (h : Crowd n s) (hn : n < 10000) :
    ∃ s', step (arrive n) s = some s' ∧ Crowd (n + 1) s' := by
  obtain ⟨u, hpoll, hu, hsockets⟩ := h.poll hn
  have hquiet : u.connections.getActiveConnections = u.connections := by
    refine getActiveConnections_of_none_ready fun c hc => ?_
    rw [hu.slots, List.mem_append, List.mem_replicate] at hc
    obtain ⟨i, -, rfl⟩ : ∃ i, i ∈ List.range (n + 1) ∧ silent i = c := by simpa using hc
    have hother : (silent i).clientFd ∉ s.reportedFds (.ready [3]) := by
      simp only [silent, reportedFds, List.mem_filter, List.contains_iff_mem, List.mem_singleton]
      omega
    simp [ready, hsockets, hother]
  have hpublished : u.publishActive true = u := by
    simp only [publishActive, hquiet, hu.pending, List.isEmpty_nil, if_true]
  have hnext : u.pipeline.getNextCompleted 0 true = none := by
    simp [ServerPipeline.getNextCompleted, ServerPipeline.getNext, Pipe.lockElementWithTimeout,
      hu.completed]
  refine ⟨u, ?_, hu⟩
  have hpass := serviceListener_eq_poll s 0 ⟨.ready [3], 4 + n, true, false, [true]⟩
  rw [hpoll, Option.bind_some] at hpass
  simp only [hpublished, Bool.false_eq_true, if_false, updateNetworkConnections, hnext] at hpass
  exact hpass

theorem crowd_of_run {n : Nat} (hn : n ≤ 10000) :
    ∃ s, (machine crowded).run ((List.range n).map arrive) (start crowded) = some s ∧
      Crowd n s := by
  induction n with
  | zero => exact ⟨_, rfl, crowd_start⟩
  | succ n ih =>
    obtain ⟨s, hrun, hcrowd⟩ := ih (by omega)
    obtain ⟨s', hstep, hnext⟩ := hcrowd.arrive (by omega)
    refine ⟨s', ?_, hnext⟩
    rw [List.range_succ, List.map_append]
    exact Machine.run_append hrun (Machine.run_singleton.trans hstep)

theorem Crowd.not_fits {n : Nat} {s : Server crowded} (h : Crowd n s) (hn : n < 10000)
    (hmany : fdSetSize ≤ 4 + n) : ¬ FitsFdSet s ⟨.ready [3], 4 + n, true, false, [true]⟩ := by
  intro hfits
  obtain ⟨u, hpoll, hu, -⟩ := h.poll hn
  have hmem : (4 + n : Int) ∈ clientFds u.connections := by
    rw [mem_clientFds, hu.slots, List.range_succ, List.map_append, List.map_append]
    refine ⟨?_, by omega⟩
    rw [List.append_assoc, fds_append, List.mem_append]
    exact .inr List.mem_cons_self
  exact absurd (hfits.tests u hpoll _ hmem).2 (Int.not_lt.mpr hmany)

theorem not_along_of_crowd {n : Nat} (hn : n < 10000) (hmany : fdSetSize ≤ 4 + n) :
    ¬ (machine crowded).Along (OfListener FitsFdSet) ((List.range (n + 1)).map arrive)
      (start crowded) := by
  intro h
  obtain ⟨s, hrun, hcrowd⟩ := crowd_of_run (Nat.le_of_lt hn)
  rw [List.range_succ, List.map_append] at h
  exact hcrowd.not_fits hn hmany (h.of_run hrun)

/-- After 1020 clients on the descriptors from 4 to 1023 the next one gets 1024. -/
theorem crowd_does_not_fit :
    ¬ (machine crowded).Along (OfListener FitsFdSet) ((List.range (1020 + 1)).map arrive)
      (start crowded) :=
  not_along_of_crowd (by decide) (by decide)

end MultiplexServer.Server

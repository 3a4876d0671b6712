import MultiplexServer.Library.Progress
import MultiplexServer.ServerQueues

/-! The server works off what it has taken on. While no client sends anything, every
element moves towards the end of the last pipe, and rounds in which each stage is served
once leave nothing in flight. -/

namespace MultiplexServer

theorem ServerPipeline.publishConnectN_acquired (p : ServerPipeline) (pending : List Int) :
    (p.publishConnectN true pending).1 = true := by
  have hpushed : ((p.pipe .request).pushWithTimeoutN true
      (List.range' p.created pending.length)).1 = true := by
    simp only [Pipe.pushWithTimeoutN]
    split_ifs <;> first | rfl | contradiction
  simp only [publishConnectN]
  rw [if_pos hpushed]

namespace Server
open ServerPipeline NetworkConnections

variable {cfg : ServerConfig} {s s' t : Server cfg}

/-- The moves that what is waiting and in flight can still make. -/
def load (s : Server cfg) : Nat :=
  5 * s.connections.activeConnections.length + 4 * (s.pipeline.queue .request).length +
    3 * (s.pipeline.queue .datamodel).length + 2 * (s.pipeline.queue .response).length +
    (s.pipeline.queue .completed).length

def Needs : Option Stage → Server cfg → Prop
  | none, s => s.connections.activeConnections ≠ []
  | some stage, s => s.pipeline.queue stage ≠ []

/-- The iteration gets to what the stage has to deal with: it obtains the mutexes and is
not told to exit first. -/
def Iteration.Serves : Option Stage → Iteration → Prop
  | none, .listener _ polling => polling.publishAcquired = true
  | some .request, .reader _ acquired _ _ => acquired = true
  | some .datamodel, .datamodel _ acquired => acquired = true
  | some .response, .writer _ acquired _ _ => acquired = true
  | some .completed, .listener _ polling =>
    polling.exit = false ∧ polling.acquired.head? = some true
  | _, _ => False

def Iteration.Quiet (listenerFd : Int) : Iteration → Prop
  | .listener _ polling => ∃ fds, polling.select = .ready fds ∧ ∀ fd ∈ fds, fd = listenerFd
  | _ => True

/-- Less is left to do, or everything is as it was and nothing that was served had work. -/
def Eases (s s' : Server cfg) (served : Option Stage → Prop) : Prop :=
  s'.load < s.load ∨ (s'.pipeline.queue = s.pipeline.queue ∧
    s'.connections.activeConnections = s.connections.activeConnections) ∧
    ∀ work, served work → ¬ s.Needs work

theorem load_congr (hqueue : s'.pipeline.queue = s.pipeline.queue)
    (hactive : s'.connections.activeConnections = s.connections.activeConnections) :
    s'.load = s.load := by
  rw [load, load, hqueue, hactive]

theorem needs_congr (hqueue : s'.pipeline.queue = s.pipeline.queue)
    (hactive : s'.connections.activeConnections = s.connections.activeConnections)
    (work : Option Stage) : s'.Needs work ↔ s.Needs work := by
  cases work with
  | none => rw [Needs, Needs, hactive]
  | some stage => rw [Needs, Needs, hqueue]

theorem some_need (h : s.load ≠ 0) : ∃ work, s.Needs work := by
  by_contra hnone
  simp only [not_exists] at hnone
  have hactive : s.connections.activeConnections = [] := not_not.mp (hnone none)
  have hqueue : ∀ stage, s.pipeline.queue stage = [] := fun stage => not_not.mp (hnone (some stage))
  exact h (by simp [load, hactive, hqueue])

/-! ## The workers -/

theorem Visits.eases (h : Inv s) (hq : Queued s.pipeline) {r : Ref} {v : Visit}
    (hv : Visits s s' r v) {rest : List Ref} (hfront : s.pipeline.queue v.stage = r :: rest) :
    s'.load < s.load := by
  have hqueue := (hv.queue h hq hfront).2.2
  have hlater := hv.later
  rw [load, load, hv.connections, hqueue]
  generalize v.stage = stage, v.target = target at hfront hlater
  cases stage <;> cases target <;>
    first
    | exact absurd hlater (by decide)
    | (simp [hfront]; omega)

theorem queue_of_getNext_none (h : Inv s) (hq : Queued s.pipeline) {stage : Stage} {objectId : Nat}
    (hnext : s.pipeline.getNext stage objectId true = none) : s.pipeline.queue stage = [] := by
  rw [h.sited.getNext_eq hq, Option.map_eq_none_iff] at hnext
  exact List.head?_eq_none_iff.mp hnext

theorem Iteration.Serves.eq_stage {iteration : Iteration} {stage : Stage} {work : Option Stage}
    (h : iteration.Serves work) (hstage : iteration.stage = some stage) : work = some stage := by
  cases iteration <;> cases hstage <;> rcases work with _ | (_ | _ | _ | _) <;>
    first
    | rfl
    | exact h.elim

theorem queue_of_visit_none (h : Inv s) (hq : Queued s.pipeline) {iteration : Iteration}
    {stage : Stage} (hserves : iteration.Serves stage) (hstage : iteration.stage = some stage)
    (hidle : visit iteration s = none) (hstep : step iteration s = some s') :
    s.pipeline.queue stage = [] := by
  cases iteration with
  | reader objectId acquired setsockopt events =>
    cases hstage
    obtain rfl : acquired = true := hserves
    cases hnext : s.pipeline.getNextRequest objectId true with
    | none => exact queue_of_getNext_none h hq hnext
    | some next =>
      simp only [step, serviceReader, hnext] at hstep
      simp only [visit, hnext, Option.bind_eq_bind, Option.bind_some] at hidle
      split at hstep
      · rename_i hread
        simp [hread] at hidle
      · cases hstep
  | datamodel objectId acquired =>
    cases hstage
    obtain rfl : acquired = true := hserves
    cases hnext : s.pipeline.getNextDatamodel objectId true with
    | none => exact queue_of_getNext_none h hq hnext
    | some next => simp [visit, hnext] at hidle
  | writer objectId acquired setsockopt events =>
    cases hstage
    obtain rfl : acquired = true := hserves
    cases hnext : s.pipeline.getNextResponse objectId true with
    | none => exact queue_of_getNext_none h hq hnext
    | some next =>
      simp only [step, serviceWriter, hnext] at hstep
      simp only [visit, hnext, Option.bind_eq_bind, Option.bind_some] at hidle
      split at hstep
      · rename_i hwrite
        simp [hwrite] at hidle
      · cases hstep
  | listener | maintenance => cases hstage

/-! ## The listener -/

theorem poll_active {polling : Polling} (hstep : s.poll polling = some s') :
    s'.connections.activeConnections = s.connections.activeConnections := by
  obtain ⟨networkSockets, heq⟩ := s.afterSelect_eq polling.select
  rcases poll_cases hstep with ⟨-, rfl⟩ | ⟨-, haccept⟩
  · rw [heq]
  · rw [connectAccept_connections haccept, heq]

theorem poll_quiet (h : Inv s) {polling : Polling} {fds : List Int}
    (hselect : polling.select = .ready fds) (honly : ∀ fd ∈ fds, fd = cfg.listenerFd)
    (hstep : s.poll polling = some s') :
    s'.connections.getActiveConnections.activeConnections = s'.connections.activeConnections := by
  have hsockets := poll_ready hselect hstep
  have hnone : (table s'.connections.networkConnections).filter
      (ready s'.connections.networkSockets) = [] := by
    rw [List.filter_eq_nil_iff]
    intro c hc hready
    obtain ⟨-, -, hreported⟩ := (ready_iff_readable _ _).mp hready
    rw [hsockets, hselect, reportedFds, List.mem_filter, List.contains_iff_mem] at hreported
    exact (h.poll hstep).notListener (honly _ hreported.2 ▸ List.mem_map.mpr ⟨c, hc, rfl⟩)
  rw [NetworkConnections.getActiveConnections, hnone, List.map_nil, List.append_nil]

theorem publishActive_acquired (s : Server cfg) :
    (s.publishActive true).connections.activeConnections = [] := by
  unfold Server.publishActive
  simp only [publishConnectN_acquired, if_true]
  split_ifs with hempty
  · exact List.isEmpty_iff.mp hempty
  · rfl

theorem publishActive_of_empty
    (hempty : s.connections.getActiveConnections.activeConnections = []) (acquired : Bool) :
    s.publishActive acquired = { s with connections := s.connections.getActiveConnections } :=
  if_pos (List.isEmpty_iff.mpr hempty)

theorem publishActive_eases (h : Inv s) (acquired : Bool)
    (hquiet : s.connections.getActiveConnections.activeConnections =
      s.connections.activeConnections) :
    s.Eases (s.publishActive acquired) fun work => work = none ∧ acquired = true := by
  by_cases hempty : s.connections.activeConnections = []
  · rw [publishActive_of_empty (hquiet.trans hempty)]
    refine .inr ⟨⟨rfl, hquiet⟩, ?_⟩
    rintro work ⟨rfl, -⟩ hneeds
    exact hneeds hempty
  · rcases publishActive_cases s acquired with ⟨-, heq⟩ | ⟨hpublished, heq⟩
    · refine .inr ⟨heq ▸ ⟨rfl, hquiet⟩, ?_⟩
      rintro work ⟨-, rfl⟩ -
      rw [← hquiet] at hempty
      exact hempty (heq ▸ s.publishActive_acquired :)
    · have hlength : 0 < s.connections.activeConnections.length :=
        List.length_pos_iff.mpr hempty
      left
      rw [heq, load, load, h.sited.queue_publish hpublished, hquiet]
      simp [NetworkConnections.clearPendingConnections]
      omega

theorem updateNetworkConnection_load (h : Inv s) (hq : Queued s.pipeline) {objectId : Nat}
    {acquired : Bool} {r : Ref} {p : ServerPipeline}
    (hnext : s.pipeline.getNextCompleted objectId acquired = some (r, p)) :
    (s.updateNetworkConnection p r).load < s.load := by
  obtain ⟨rest, hfront, -, hqueues⟩ := updateNetworkConnection_queue h hq hnext
  have hactive := (updateNetworkConnection_cases h hnext).2.1
  have hqueue := congrArg QueueNetwork.queue hqueues
  simp only [queues] at hqueue
  rw [load, load, hactive, hqueue]
  simp [hfront]

theorem updateNetworkConnections_load (h : Inv s) (hq : Queued s.pipeline) {objectId : Nat}
    {acquired : List Bool} (hstep : updateNetworkConnections objectId acquired s = some s') :
    s' = s ∨ s'.load < s.load := by
  induction acquired generalizing s with
  | nil => cases hstep
  | cons acquired rest ih =>
    rw [Server.updateNetworkConnections] at hstep
    cases hnext : s.pipeline.getNextCompleted objectId acquired with
    | none =>
      simp only [hnext] at hstep
      exact .inl (Option.some.inj hstep).symm
    | some next =>
      obtain ⟨r, p⟩ := next
      simp only [hnext] at hstep
      have hlower := updateNetworkConnection_load h hq hnext
      obtain ⟨left, -, hqueued, -⟩ := updateNetworkConnection_queue h hq hnext
      rcases ih (h.updateNetworkConnection hnext) hqueued hstep with rfl | hrest
      · exact .inr hlower
      · exact .inr (hrest.trans hlower)

theorem updateNetworkConnections_eases (h : Inv s) (hq : Queued s.pipeline) {objectId : Nat}
    {acquired : List Bool} (hstep : updateNetworkConnections objectId acquired s = some s') :
    s.Eases s' fun work => work = some .completed ∧ acquired.head? = some true := by
  rcases updateNetworkConnections_load h hq hstep with rfl | hlower
  · refine .inr ⟨⟨rfl, rfl⟩, ?_⟩
    rintro work ⟨rfl, hacquired⟩ hneeds
    obtain ⟨rest, rfl⟩ := List.head?_eq_some_iff.mp hacquired
    rw [Server.updateNetworkConnections] at hstep
    cases hnext : s'.pipeline.getNextCompleted objectId true with
    | none => exact hneeds (queue_of_getNext_none h hq hnext)
    | some next =>
      obtain ⟨r, p⟩ := next
      simp only [hnext] at hstep
      have hlower := updateNetworkConnection_load h hq hnext
      obtain ⟨left, -, hqueued, -⟩ := updateNetworkConnection_queue h hq hnext
      rcases updateNetworkConnections_load (h.updateNetworkConnection hnext) hqueued hstep with
        heq | hrest
      · exact absurd (heq ▸ hlower) (Nat.lt_irrefl _)
      · exact absurd (hrest.trans hlower) (Nat.lt_irrefl _)
  · exact .inl hlower

theorem Eases.mono {served served' : Option Stage → Prop} (h : s.Eases s' served)
    (hserved : ∀ work, served' work → served work) : s.Eases s' served' :=
  h.imp_right fun hsame => ⟨hsame.1, fun work hwork => hsame.2 work (hserved work hwork)⟩

theorem Eases.trans {served served' : Option Stage → Prop} (h : s.Eases t served)
    (h' : t.Eases s' served') : s.Eases s' fun work => served work ∨ served' work := by
  rcases h with hlower | ⟨⟨hqueue, hactive⟩, hserved⟩
  · refine .inl ((?_ : s'.load ≤ t.load).trans_lt hlower)
    exact h'.elim Nat.le_of_lt fun hsame => (load_congr hsame.1.1 hsame.1.2).le
  · rcases h' with hlower | ⟨⟨hqueue', hactive'⟩, hserved'⟩
    · exact .inl (hlower.trans_eq (load_congr hqueue hactive))
    · refine .inr ⟨⟨hqueue'.trans hqueue, hactive'.trans hactive⟩, ?_⟩
      rintro work (hwork | hwork)
      · exact hserved work hwork
      · exact fun hneeds => hserved' work hwork ((needs_congr hqueue hactive work).mpr hneeds)

theorem poll_eases {polling : Polling} (hstep : s.poll polling = some s') :
    s.Eases s' fun _ => False := by
  refine .inr ⟨⟨by rw [poll_pipeline hstep], poll_active hstep⟩, ?_⟩
  exact fun _ hserved => hserved.elim

theorem serviceListener_eases (h : Inv s) (hq : Queued s.pipeline) {objectId : Nat}
    {polling : Polling} (hquiet : (Iteration.listener objectId polling).Quiet cfg.listenerFd)
    (hstep : s.serviceListener objectId polling = some s') :
    s.Eases s' ((Iteration.listener objectId polling).Serves ·) := by
  obtain ⟨fds, hselect, honly⟩ := hquiet
  obtain ⟨u, hpolled, hupdated⟩ := Option.bind_eq_some_iff.mp
    ((serviceListener_eq_poll s objectId polling).symm.trans hstep)
  have hu := h.poll hpolled
  have hpublished := (poll_eases hpolled).trans
    (publishActive_eases hu polling.publishAcquired (poll_quiet h hselect honly hpolled))
  simp only at hupdated
  split_ifs at hupdated with hexit
  · cases hupdated
    refine hpublished.mono fun work hserves => ?_
    match work, hserves with
    | none, hacquired => exact .inr ⟨rfl, hacquired⟩
    | some .completed, hsettles => exact absurd (hexit.symm.trans hsettles.1) (by decide)
  · have hqueued := (publishActive_queues hu (poll_pipeline hpolled ▸ hq)
      polling.publishAcquired).1
    have hsettled :=
      hpublished.trans (updateNetworkConnections_eases (hu.publishActive _) hqueued hupdated)
    refine hsettled.mono fun work hserves => ?_
    match work, hserves with
    | none, hacquired => exact .inl (.inr ⟨rfl, hacquired⟩)
    | some .completed, hsettles => exact .inr ⟨rfl, hsettles.2⟩

theorem step_eases (h : Inv s) (hq : Queued s.pipeline) {iteration : Iteration}
    (hquiet : iteration.Quiet cfg.listenerFd) (hstep : step iteration s = some s') :
    s.Eases s' (iteration.Serves ·) := by
  rcases step_cases h.sited hstep with
    ⟨objectId, polling, rfl, hpass⟩ | ⟨acquired, rfl, rfl⟩ | ⟨stage, hstage, hidle, rfl⟩ |
      ⟨r, v, hvisit, hv⟩
  · exact serviceListener_eases h hq hquiet hpass
  · refine .inr ⟨⟨hq.queue_maintain acquired, rfl⟩, fun work hserves => ?_⟩
    rcases work with _ | (_ | _ | _ | _) <;> exact hserves.elim
  · refine .inr ⟨⟨rfl, rfl⟩, fun work hserves hneeds => ?_⟩
    obtain rfl := hserves.eq_stage hstage
    exact hneeds (queue_of_visit_none h hq hserves hstage hidle hstep)
  · obtain ⟨rest, hfront⟩ := front_of_visit h hq hvisit
    exact .inl (hv.eases h hq hfront)

/-! ## The drain -/

theorem drains (cfg : ServerConfig) :
    (machine cfg).Drains (Iteration.Quiet cfg.listenerFd) load Needs Iteration.Serves where
  some_need _ _ := some_need
  quiet_step s t iteration hs hquiet hstep := by
    rcases step_eases (inv_of_reachable hs) (queued_of_reachable hs) hquiet hstep with
      hlower | ⟨⟨hqueue, hactive⟩, -⟩
    · exact .inl hlower
    · exact .inr ⟨load_congr hqueue hactive, fun work => (needs_congr hqueue hactive work).mpr⟩
  serve_step s t iteration work hs hquiet hserves hneeds hstep := by
    rcases step_eases (inv_of_reachable hs) (queued_of_reachable hs) hquiet hstep with
      hlower | ⟨-, hserved⟩
    · exact hlower
    · exact absurd hneeds (hserved work hserves)

theorem load_le (s : Server cfg) :
    s.load ≤ 5 * (s.connections.activeConnections.length + s.inFlight.length) := by
  have hlength : s.inFlight.length = (s.pipeline.queue .request).length +
      (s.pipeline.queue .datamodel).length + (s.pipeline.queue .response).length +
      (s.pipeline.queue .completed).length := by
    simp [inFlight, PipelineMaintenance.pipes]
    omega
  rw [load, hlength]
  omega

theorem done_of_load_eq_zero (h : s.load = 0) :
    s.connections.activeConnections = [] ∧ s.inFlight = [] := by
  unfold load at h
  constructor
  · exact List.length_eq_zero_iff.mp (by omega)
  · rw [inFlight, List.flatMap_eq_nil_iff]
    intro stage _
    apply List.length_eq_zero_iff.mp
    cases stage <;> omega

/-- Rounds of iterations in any order, in which no client has anything new to say and
every stage gets its mutex once: five for each connection that is taken on are enough.
Then every request has been settled and every client can be heard again. -/
theorem drained (h : (machine cfg).Reachable s) {rounds : List (List Iteration)}
    (hquiet : ∀ round ∈ rounds, ∀ iteration ∈ round, iteration.Quiet cfg.listenerFd)
    (hserved : ∀ round ∈ rounds, ∀ work, ∃ iteration ∈ round, iteration.Serves work)
    (hlong : 5 * (s.connections.activeConnections.length + s.inFlight.length) ≤ rounds.length)
    (hrun : (machine cfg).run rounds.flatten s = some s') :
    (∀ r < s'.pipeline.created, ∃ log e connection isOpen,
      Life.Settled cfg (s'.pipeline.elements r).clientFd log e ∧
      s'.log r = log ++ [.complete e connection isOpen]) ∧
    s'.connections.activeConnections = [] ∧
    ∀ c ∈ table s'.connections.networkConnections, c.locked = false := by
  have hlast := h.run hrun
  have hinv := inv_of_reachable hlast
  have hq := queued_of_reachable hlast
  have hzero := (drains cfg).rounds h hquiet hserved (s.load_le.trans hlong) hrun
  obtain ⟨hactive, hflight⟩ := done_of_load_eq_zero hzero
  refine ⟨fun r hr => ?_, hactive, fun c hc => ?_⟩
  · have hmem := (hinv.inFlight_perm hq).mem_iff (a := r)
    rw [hflight, List.mem_filter, List.mem_range] at hmem
    have hplace : (s'.pipeline.elements r).place = none := by
      rw [← Option.not_isSome_iff_eq_none]
      exact fun hsome => List.not_mem_nil (hmem.mpr ⟨hr, hsome⟩)
    obtain ⟨log, e, connection, isOpen, hsettled, hlog, -⟩ :=
      (hinv.sited.life r hr).at_end hplace
    exact ⟨log, e, connection, isOpen, hsettled, hlog⟩
  · have hlocked := hinv.locked_perm hq
    rw [hactive, hflight, List.map_nil, List.nil_append, List.nil_perm, List.map_eq_nil_iff,
      List.filter_eq_nil_iff] at hlocked
    exact Bool.eq_false_iff.mpr (hlocked c hc)

/-! ## Rounds can be completed -/

theorem reader_completes (s : Server cfg) :
    ∃ s', step (.reader 1 true (-1) []) s = some s' := by
  simp only [step, serviceReader]
  split
  · exact ⟨s, rfl⟩
  · exact ⟨_, rfl⟩

theorem writer_completes (s : Server cfg) :
    ∃ s', step (.writer 3 true (-1) []) s = some s' := by
  simp only [step, serviceWriter]
  split
  · exact ⟨s, rfl⟩
  · exact ⟨_, rfl⟩

theorem updateNetworkConnections_completes (s : Server cfg) :
    ∃ s', updateNetworkConnections 0 [true, false] s = some s' := by
  rw [updateNetworkConnections]
  split
  · exact ⟨s, rfl⟩
  · rw [updateNetworkConnections, ServerPipeline.getNextCompleted, getNext_not_acquired]
    exact ⟨_, rfl⟩

theorem listener_completes (s : Server cfg) :
    ∃ s', step (.listener 0 ⟨.ready [], -1, true, false, [true, false]⟩) s = some s' := by
  have hpoll : s.poll ⟨.ready [], -1, true, false, [true, false]⟩ =
      some (s.afterSelect (.ready [])) := by
    rw [poll_eq]
    exact if_neg (by simp [reportedFds])
  rw [step, serviceListener_eq_poll, hpoll]
  exact updateNetworkConnections_completes _

theorem exists_round (s : Server cfg) : ∃ round s', (machine cfg).run round s = some s' ∧
    (∀ iteration ∈ round, iteration.Quiet cfg.listenerFd) ∧
    ∀ work, ∃ iteration ∈ round, iteration.Serves work := by
  obtain ⟨s₁, hread⟩ := s.reader_completes
  obtain ⟨s₂, hwrite⟩ := (s₁.serviceDatamodel 2 true).writer_completes
  obtain ⟨s', hpass⟩ := s₂.listener_completes
  refine ⟨[.reader 1 true (-1) []] ++ ([.datamodel 2 true] ++ ([.writer 3 true (-1) []] ++
    [.listener 0 ⟨.ready [], -1, true, false, [true, false]⟩])), s', ?_, ?_, fun work => ?_⟩
  · refine Machine.run_append (Machine.run_singleton.trans hread) ?_
    refine Machine.run_append (Machine.run_singleton.trans rfl) ?_
    exact Machine.run_append (Machine.run_singleton.trans hwrite)
      (Machine.run_singleton.trans hpass)
  · simp [Iteration.Quiet]
  · rcases work with _ | (_ | _ | _ | _) <;> simp [Iteration.Serves]

/-- From every state there are as many such rounds as are wanted. -/
theorem exists_rounds (s : Server cfg) (n : Nat) :
    ∃ (rounds : List (List Iteration)) (s' : Server cfg), rounds.length = n ∧
    (machine cfg).run rounds.flatten s = some s' ∧
    (∀ round ∈ rounds, ∀ iteration ∈ round, iteration.Quiet cfg.listenerFd) ∧
    ∀ round ∈ rounds, ∀ work, ∃ iteration ∈ round, iteration.Serves work := by
  induction n generalizing s with
  | zero => exact ⟨[], s, rfl, rfl, by simp, by simp⟩
  | succ n ih =>
    obtain ⟨round, t, hround, hquiet, hserved⟩ := s.exists_round
    obtain ⟨rounds, s', hlength, hrun, hquiets, hserveds⟩ := ih t
    refine ⟨round :: rounds, s', by rw [List.length_cons, hlength],
      Machine.run_append hround hrun, ?_, ?_⟩
    · exact List.forall_mem_cons.mpr ⟨hquiet, hquiets⟩
    · exact List.forall_mem_cons.mpr ⟨hserved, hserveds⟩

def quietRound : List Iteration :=
  [.writer 4 true 0 [.room 100], .datamodel 3 true, closing, .maintenance fun _ => true,
    .reader 1 true 0 []]

theorem drained_pair :
    ∃ s s', (machine shipped).run pair (start shipped) = some s ∧
      (machine shipped).run (List.replicate 10 quietRound).flatten s = some s' ∧
      ∀ c ∈ table s'.connections.networkConnections, c.locked = false := by
  have hrun : ((machine shipped).run (pair ++ (List.replicate 10 quietRound).flatten)
      (start shipped)).isSome = true := by decide +kernel
  have hload : ((machine shipped).run pair (start shipped)).map (fun s =>
      s.connections.activeConnections.length + s.inFlight.length) = some 2 := by decide +kernel
  obtain ⟨s', hs'⟩ := Option.isSome_iff_exists.mp hrun
  obtain ⟨s, hs, hrest⟩ := Machine.run_of_append hs'
  have hlength : s.connections.activeConnections.length + s.inFlight.length = 2 := by
    rw [hs] at hload
    exact Option.some.inj hload
  have hround : ∀ round ∈ List.replicate 10 quietRound, round = quietRound :=
    fun round hround => (List.mem_replicate.mp hround).2
  refine ⟨s, s', hs, hrest, (drained (Machine.reachable_of_run hs) ?_ ?_ ?_ hrest).2.2⟩
  · intro round hmem
    rw [hround round hmem]
    simp [quietRound, closing, Iteration.Quiet]
  · intro round hmem work
    rw [hround round hmem]
    rcases work with _ | (_ | _ | _ | _) <;> simp [quietRound, closing, Iteration.Serves]
  · rw [hlength]
    decide

end Server

end MultiplexServer

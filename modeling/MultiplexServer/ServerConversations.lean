import MultiplexServer.Library.Refinement
import MultiplexServer.ServerDispatch

/-! What the server is for: one conversation with each client, in which every request is
read, computed, answered and settled before the next one is looked at. The server, with
its pipes, its locks and its workers, refines a family of such conversations. -/

namespace MultiplexServer
open NetworkConnections

inductive Turn where
  | absent
  | idle
  | waiting
  | reading
  | computing
  | replying
  | settling (keep : Bool)
  deriving DecidableEq, Repr

inductive Move where
  | connect
  | dispatch
  | publish
  | read (ok : Bool)
  | compute (ok : Bool)
  | reply (ok : Bool)
  | settle
  deriving DecidableEq, Repr

namespace Turn

/-- The client is kept only if every stage of the request has succeeded. -/
def next : Move → Turn → Option Turn
  | .connect, .absent => some .idle
  | .dispatch, .idle => some .waiting
  | .publish, .waiting => some .reading
  | .read ok, .reading => some (if ok then .computing else .settling false)
  | .compute ok, .computing => some (if ok then .replying else .settling false)
  | .reply ok, .replying => some (.settling ok)
  | .settle, .settling keep => some (if keep then .idle else .absent)
  | _, _ => none

end Turn

def conversations : Machine (Int → Turn) (Int × Move) := Machine.family .absent Turn.next

def Stage.turn (keep : Bool) : Stage → Turn
  | .request => .reading
  | .datamodel => .computing
  | .response => .replying
  | .completed => .settling keep

def ServerPipelineElement.turn (e : ServerPipelineElement) : Option Turn :=
  e.place.map (Stage.turn !e.isCloseConnectionRequired)

def ServerPipeline.turnOf (p : ServerPipeline) (fd : Int) (r : Ref) : Option Turn :=
  if (p.elements r).clientFd = fd then (p.elements r).turn else none

def NetworkConnections.turn (t : NetworkConnections) (fd : Int) : Turn :=
  if fd ∈ t.activeConnections then .waiting
  else if fd ∈ fds t.networkConnections then .idle
  else .absent

namespace ServerPipelineElement

variable {e : ServerPipelineElement}

theorem turn_isSome (e : ServerPipelineElement) : e.turn.isSome = e.place.isSome :=
  Option.isSome_map

theorem turn_of_place {stage : Stage} (h : e.place = some stage) :
    e.turn = some (stage.turn !e.isCloseConnectionRequired) := by
  rw [turn, h, Option.map_some]

end ServerPipelineElement

namespace Server
open Strings ServerPipeline ServerPipelineElement NetworkReaderService NetworkWriterService
open DatamodelService

variable {cfg : ServerConfig} {s s' : Server cfg}

def turn (s : Server cfg) (fd : Int) : Turn :=
  ((List.range s.pipeline.created).findSome? (s.pipeline.turnOf fd)).getD
    (s.connections.turn fd)

def Carries (p : ServerPipeline) (fd : Int) (t : Turn) : Prop :=
  ∃ r < p.created, p.turnOf fd r = some t

theorem turnOf_eq_some {p : ServerPipeline} {fd : Int} {r : Ref} {t : Turn} :
    p.turnOf fd r = some t ↔ (p.elements r).clientFd = fd ∧ (p.elements r).turn = some t := by
  rw [turnOf, Option.ite_none_right_eq_some]

theorem carried_of_turnOf {p : ServerPipeline} {fd : Int} {r : Ref} {t : Turn}
    (h : p.turnOf fd r = some t) : p.carried r = some fd := by
  obtain ⟨hfd, hturn⟩ := turnOf_eq_some.mp h
  have hplace : (p.elements r).place.isSome = true := by
    rw [← turn_isSome, hturn]
    rfl
  rw [carried, if_pos hplace, hfd]

theorem Inv.turn_eq_of_carries (h : Inv s) {fd : Int} {t : Turn}
    (hcarries : Carries s.pipeline fd t) : s.turn fd = t := by
  obtain ⟨r, hr, hturn⟩ := hcarries
  have hcarried := carried_of_turnOf hturn
  cases hfound : (List.range s.pipeline.created).findSome? (s.pipeline.turnOf fd) with
  | none =>
    have hnone := List.findSome?_eq_none_iff.mp hfound r (List.mem_range.mpr hr)
    rw [hturn] at hnone
    cases hnone
  | some found =>
    obtain ⟨x, hx, hfoundTurn⟩ := List.exists_of_findSome?_eq_some hfound
    have hsame := h.accounts.carried_unique (List.mem_range.mp hx) hr
      (carried_of_turnOf hfoundTurn) hcarried
    rw [hsame, hturn] at hfoundTurn
    rw [turn, hfound, Option.getD_some, Option.some.inj hfoundTurn]

theorem Inv.turn_of_place (h : Inv s) {r : Ref} (hr : r < s.pipeline.created) {stage : Stage}
    (hplace : (s.pipeline.elements r).place = some stage) :
    s.turn (s.pipeline.elements r).clientFd =
      stage.turn !(s.pipeline.elements r).isCloseConnectionRequired :=
  h.turn_eq_of_carries ⟨r, hr, turnOf_eq_some.mpr ⟨rfl, ServerPipelineElement.turn_of_place hplace⟩⟩

theorem turn_eq_of_not_carries (s : Server cfg) {fd : Int} (h : ∀ t, ¬ Carries s.pipeline fd t) :
    s.turn fd = s.connections.turn fd := by
  have hnone : (List.range s.pipeline.created).findSome? (s.pipeline.turnOf fd) = none := by
    rw [List.findSome?_eq_none_iff]
    intro r hr
    cases hturn : s.pipeline.turnOf fd r with
    | none => rfl
    | some t => exact absurd ⟨r, List.mem_range.mp hr, hturn⟩ (h t)
  rw [turn, hnone, Option.getD_none]

theorem turn_congr (h : Inv s) (h' : Inv s') {fd : Int}
    (hcarries : ∀ t, Carries s'.pipeline fd t ↔ Carries s.pipeline fd t)
    (hconnection : s'.connections.turn fd = s.connections.turn fd) : s'.turn fd = s.turn fd := by
  by_cases hin : ∃ t, Carries s.pipeline fd t
  · obtain ⟨t, ht⟩ := hin
    rw [h.turn_eq_of_carries ht, h'.turn_eq_of_carries ((hcarries t).mpr ht)]
  · have hout : ∀ t, ¬ Carries s.pipeline fd t := fun t ht => hin ⟨t, ht⟩
    have hout' : ∀ t, ¬ Carries s'.pipeline fd t := fun t ht => hout t ((hcarries t).mp ht)
    rw [turn_eq_of_not_carries s hout, turn_eq_of_not_carries s' hout', hconnection]

theorem not_carries_of_carried {p : ServerPipeline} {fd : Int}
    (h : ∀ r < p.created, p.carried r ≠ some fd) (t : Turn) : ¬ Carries p fd t := by
  rintro ⟨r, hr, hturn⟩
  exact h r hr (carried_of_turnOf hturn)

theorem carries_modify {p : ServerPipeline} {r : Ref}
    {f : ServerPipelineElement → ServerPipelineElement} {fd : Int}
    (hfd : (f (p.elements r)).clientFd = (p.elements r).clientFd)
    (hne : (p.elements r).clientFd ≠ fd) (t : Turn) :
    Carries (p.modify r f) fd t ↔ Carries p fd t := by
  have hsame : ∀ x, (p.modify r f).turnOf fd x = p.turnOf fd x := by
    intro x
    by_cases hx : x = r
    · subst hx
      simp [turnOf, hfd, hne]
    · simp [turnOf, hx]
  simp only [Carries, hsame, modify_created]

/-! ## The moves of an iteration -/

def moveOf : Visit → Move
  | .read _ _ _ status _ => .read (status = .ok)
  | .compute status _ => .compute (status = .ok)
  | .write _ _ _ _ status _ => .reply (status = .ok)
  | .complete _ _ _ => .settle

def connectedFds (s : Server cfg) (polling : Polling) : List Int :=
  if cfg.listenerFd ∈ s.reportedFds polling.select ∧ 0 ≤ polling.accepted ∧
      (addConnection polling.accepted s.connections.networkConnections).isSome then
    [polling.accepted]
  else []

def readyFds (t : NetworkConnections) : List Int :=
  ((table t.networkConnections).filter (ready t.networkSockets)).map NetworkConnection.clientFd

def publishedFds (s : Server cfg) (acquired : Bool) : List Int :=
  let pending := s.connections.getActiveConnections.activeConnections
  if (s.pipeline.publishConnectN acquired pending).1 then pending else []

def settled (objectId : Nat) : List Bool → Server cfg → List Ref
  | [], _ => []
  | acquired :: rest, s =>
    match s.pipeline.getNextCompleted objectId acquired with
    | none => []
    | some (r, p) => r :: settled objectId rest (s.updateNetworkConnection p r)

def elementFds (s : Server cfg) (refs : List Ref) : List Int :=
  refs.map fun r => (s.pipeline.elements r).clientFd

def passMoves (s : Server cfg) (objectId : Nat) (polling : Polling) : List (Int × Move) :=
  let t := s.publishActive polling.publishAcquired
  (readyFds s.connections).map (·, .dispatch) ++
    (s.publishedFds polling.publishAcquired).map (·, .publish) ++
    if polling.exit then []
    else (t.elementFds (settled objectId polling.acquired t)).map (·, .settle)

/-- A worker makes the move of its visit for the client of the element, the listener those
of its pass, and maintenance none. -/
def moves : Iteration → Server cfg → List (Int × Move)
  | .listener objectId polling, s =>
    (s.connectedFds polling).map (·, .connect) ++
      ((s.poll polling).map fun s => s.passMoves objectId polling).getD []
  | iteration, s =>
    (visit iteration s).toList.map fun (r, v) => ((s.pipeline.elements r).clientFd, moveOf v)

theorem moves_of_stage {iteration : Iteration} {stage : Stage}
    (h : iteration.stage = some stage) (s : Server cfg) :
    moves iteration s =
      (visit iteration s).toList.map fun (r, v) => ((s.pipeline.elements r).clientFd, moveOf v) := by
  cases iteration with
  | listener | maintenance => cases h
  | reader | datamodel | writer => rfl

/-! ## The workers -/

theorem Visits.next_turn (h : Inv s) {r : Ref} {v : Visit} (hv : Visits s s' r v) :
    Turn.next (moveOf v) (v.stage.turn !(s.pipeline.elements r).isCloseConnectionRequired) =
      some (v.target.turn !(v.effect (s.pipeline.elements r)).isCloseConnectionRequired) := by
  have hlife := h.sited.life r hv.created
  cases v with
  | read fd setsockopt events status payload =>
    by_cases hok : status = .ok
    · simp [hok, moveOf, Turn.next, Visit.stage, Visit.target, Stage.turn]
    · simp [hok, moveOf, Turn.next, Visit.stage, Visit.target, Visit.effect, Stage.turn, abandon,
        markAsRequestFailed]
  | compute status result =>
    by_cases hok : status = .ok
    · simp [hok, moveOf, Turn.next, Visit.stage, Visit.target, Stage.turn]
    · simp [hok, moveOf, Turn.next, Visit.stage, Visit.target, Visit.effect, Stage.turn, abandon,
        markAsDatamodelFailed]
  | write fd setsockopt response events status accepted =>
    obtain ⟨payload, -, result, -, -, -, he⟩ := hlife.at_response hv.place
    have hkept : (s.pipeline.elements r).isCloseConnectionRequired = false := by
      rw [he]
      rfl
    by_cases hok : status = .ok
    · simp [hok, moveOf, Turn.next, Visit.stage, Visit.target, Visit.effect, Stage.turn, write,
        hkept]
    · simp [hok, moveOf, Turn.next, Visit.stage, Visit.target, Visit.effect, Stage.turn, abandon,
        markAsResponseFailed]
  | complete taken connection isOpen => exact absurd rfl (hv.underWay taken connection isOpen)

theorem Visits.run (h : Inv s) {r : Ref} {v : Visit} (hv : Visits s s' r v) :
    conversations.run [((s.pipeline.elements r).clientFd, moveOf v)] s.turn = some s'.turn := by
  have h' := h.visits hv
  have hfd := hv.life.clientFd
  have helement : s'.pipeline.elements r = v.effect (s.pipeline.elements r) := by
    simp [hv.pipeline]
  apply Machine.family_run_singleton
  · have hcreated : r < s'.pipeline.created := by
      rw [hv.pipeline]
      exact hv.created
    have hthen := h'.turn_of_place hcreated (helement ▸ hv.next)
    rw [helement, hfd] at hthen
    rw [h.turn_of_place hv.created hv.place, hv.next_turn h, hthen]
  · intro fd hne
    refine turn_congr h h' (fun t => ?_) (by rw [hv.connections])
    rw [hv.pipeline]
    exact carries_modify (p := s.pipeline.push v.target r) hfd hne.symm t

/-! ## The listener -/

theorem fds_add {newFd : Int} {slots slots' : List (Option NetworkConnection)}
    (h : addConnection newFd slots = some slots') (fd : Int) :
    fd ∈ fds slots' ↔ fd = newFd ∨ fd ∈ fds slots := by
  rw [(addConnection_perm h).2.mem_iff, List.mem_cons]

theorem connectAccept_cases {newFd : Int} (hstep : s.connectAccept newFd = some s') :
    s'.pipeline = s.pipeline ∧
    (s'.connections = s.connections ∧ (0 ≤ newFd →
        addConnection newFd s.connections.networkConnections = none) ∨
      0 ≤ newFd ∧ newFd ∉ s.openFds ∧
      ∃ slots, addConnection newFd s.connections.networkConnections = some slots ∧
        s'.connections = { s.connections with networkConnections := slots }) := by
  unfold connectAccept at hstep
  split_ifs at hstep with hneg hopen
  · cases hstep
    exact ⟨rfl, .inl ⟨rfl, fun hnonneg => absurd hneg (Int.not_lt.mpr hnonneg)⟩⟩
  cases hslots : addConnection newFd s.connections.networkConnections with
  | none =>
    simp only [hslots] at hstep
    cases hstep
    exact ⟨rfl, .inl ⟨rfl, fun _ => rfl⟩⟩
  | some slots =>
    simp only [hslots] at hstep
    cases hstep
    exact ⟨rfl, .inr ⟨Int.not_lt.mp hneg, hopen, slots, rfl, rfl⟩⟩

theorem connectAccept_run (h : Inv s) {newFd : Int} (hstep : s.connectAccept newFd = some s') :
    conversations.run ((if 0 ≤ newFd ∧
        (addConnection newFd s.connections.networkConnections).isSome then [newFd] else []).map
      (·, .connect)) s.turn = some s'.turn := by
  have h' := h.accept hstep
  obtain ⟨hpipeline, ⟨hsame, hnone⟩ | ⟨hnonneg, hopen, slots, hslots, hconnections⟩⟩ :=
    connectAccept_cases hstep
  · have hno : ¬ (0 ≤ newFd ∧
        (addConnection newFd s.connections.networkConnections).isSome = true) := by
      rintro ⟨hnonneg, hsome⟩
      rw [hnone hnonneg] at hsome
      cases hsome
    rw [if_neg hno]
    refine congrArg some (funext fun fd => ?_)
    exact (turn_congr h h' (fun _ => by rw [hpipeline]) (by rw [hsame])).symm
  · rw [if_pos ⟨hnonneg, by rw [hslots]; rfl⟩]
    refine Machine.family_run_singleton ?_ fun fd hne => ?_
    · have hfresh : newFd ∉ fds s.connections.networkConnections := fun hmem =>
        hopen (h.accounts.opened newFd hmem)
      have hwaits : newFd ∉ s.connections.activeConnections := fun hmem =>
        hfresh (h.accounts.mem_fds_of_active hmem)
      have hout : ∀ t, ¬ Carries s.pipeline newFd t :=
        not_carries_of_carried fun r hr hcarried =>
          hfresh (h.accounts.mem_fds_of_carried hr hcarried)
      rw [turn_eq_of_not_carries s hout, turn_eq_of_not_carries s' (hpipeline ▸ hout),
        hconnections]
      simp [NetworkConnections.turn, hwaits, hfresh, fds_add hslots, Turn.next]
    · refine turn_congr h h' (fun _ => by rw [hpipeline]) ?_
      rw [hconnections]
      simp [NetworkConnections.turn, fds_add hslots, hne]

theorem afterSelect_eq (s : Server cfg) (outcome : SelectOutcome) : ∃ networkSockets,
    s.afterSelect outcome = { s with connections := { s.connections with networkSockets } } := by
  rw [afterSelect, connectSelect_snd]
  exact ⟨_, rfl⟩

theorem Inv.afterSelect (h : Inv s) (outcome : SelectOutcome) : Inv (s.afterSelect outcome) := by
  obtain ⟨networkSockets, heq⟩ := s.afterSelect_eq outcome
  exact heq ▸ h.select networkSockets

theorem poll_cases {polling : Polling} (hstep : s.poll polling = some s') :
    cfg.listenerFd ∉ s.reportedFds polling.select ∧ s' = s.afterSelect polling.select ∨
    cfg.listenerFd ∈ s.reportedFds polling.select ∧
      (s.afterSelect polling.select).connectAccept polling.accepted = some s' := by
  rw [poll_eq] at hstep
  split_ifs at hstep with hreported
  · exact .inr ⟨hreported, hstep⟩
  · exact .inl ⟨hreported, (Option.some.inj hstep).symm⟩

theorem Inv.poll (h : Inv s) {polling : Polling} (hstep : s.poll polling = some s') : Inv s' := by
  rcases poll_cases hstep with ⟨-, rfl⟩ | ⟨-, haccept⟩
  · exact h.afterSelect _
  · exact (h.afterSelect _).accept haccept

theorem poll_run (h : Inv s) {polling : Polling} (hstep : s.poll polling = some s') :
    conversations.run ((s.connectedFds polling).map (·, .connect)) s.turn = some s'.turn := by
  have hselect : (s.afterSelect polling.select).turn = s.turn := by
    obtain ⟨networkSockets, heq⟩ := s.afterSelect_eq polling.select
    rw [heq]
    rfl
  rcases poll_cases hstep with ⟨hreported, rfl⟩ | ⟨hreported, haccept⟩
  · rw [connectedFds, if_neg fun hall => hreported hall.1, hselect]
    rfl
  · have hconnect := connectAccept_run (h.afterSelect _) haccept
    rw [hselect, afterSelect_networkConnections] at hconnect
    simpa only [connectedFds, hreported, true_and] using hconnect

theorem getActiveConnections_run (h : Inv s) :
    conversations.run ((readyFds s.connections).map (·, .dispatch)) s.turn =
      some (turn { s with connections := s.connections.getActiveConnections }) := by
  have h' := h.getActiveConnections
  have hidle : ∀ fd ∈ readyFds s.connections, s.turn fd = .idle ∧
        turn { s with connections := s.connections.getActiveConnections } fd = .waiting := by
    intro fd hfd
    obtain ⟨c, hc, rfl⟩ := List.mem_map.mp hfd
    obtain ⟨hmem, hready⟩ := List.mem_filter.mp hc
    simp only [ready, Bool.and_eq_true, Bool.not_eq_true'] at hready
    obtain ⟨hwaits, hcarried⟩ := h.accounts.of_unlocked hmem hready.2
    have hout := not_carries_of_carried hcarried
    constructor
    · rw [turn_eq_of_not_carries _ hout, NetworkConnections.turn, if_neg hwaits]
      exact if_pos (List.mem_map.mpr ⟨c, hmem, rfl⟩)
    · rw [turn_eq_of_not_carries { s with connections := s.connections.getActiveConnections } hout]
      exact if_pos (List.mem_append_right _ hfd)
  refine Machine.family_run ?_ (fun fd hfd => ?_) fun fd hfd => ?_
  · exact h.accounts.distinct.sublist (List.filter_sublist.map _)
  · obtain ⟨hbefore, hafter⟩ := hidle fd hfd
    rw [hbefore, hafter]
    rfl
  · refine turn_congr h h' (fun _ => Iff.rfl) ?_
    simp only [NetworkConnections.turn, fds_getActiveConnections]
    congr 1
    rw [getActiveConnections, List.mem_append]
    exact propext (or_iff_left hfd)

theorem publishConnectN_run (h : Inv s) {acquired : Bool}
    (hpublished : (s.pipeline.publishConnectN acquired s.connections.activeConnections).1 = true)
    (h' : Inv { s with
      pipeline := (s.pipeline.publishConnectN acquired s.connections.activeConnections).2
      connections := s.connections.clearPendingConnections }) :
    conversations.run (s.connections.activeConnections.map (·, .publish)) s.turn =
      some (turn { s with
        pipeline := (s.pipeline.publishConnectN acquired s.connections.activeConnections).2
        connections := s.connections.clearPendingConnections }) := by
  refine Machine.family_run h.accounts.active_nodup (fun fd hfd => ?_) fun fd hfd => ?_
  · have hout := not_carries_of_carried fun r hr =>
      h.accounts.not_carried_of_active hfd hr
    obtain ⟨i, hi⟩ := List.mem_iff_getElem?.mp hfd
    have hbound : i < s.connections.activeConnections.length :=
      (List.getElem?_eq_some_iff.mp hi).1
    have helement := publishConnectN_new hpublished hi
    have hplace : ((s.pipeline.publishConnectN acquired
        s.connections.activeConnections).2.elements (s.pipeline.created + i)).place =
        some .request := by
      rw [helement]
      exact place_new fd
    have hthen := h'.turn_of_place
      (by rw [publishConnectN_created hpublished]; exact Nat.add_lt_add_left hbound _) hplace
    rw [helement] at hthen
    rw [turn_eq_of_not_carries _ hout, NetworkConnections.turn, if_pos hfd]
    exact congrArg some hthen.symm
  · refine turn_congr h h' (fun t => ?_) ?_
    · constructor
      · rintro ⟨r, hr, hturn⟩
        rw [publishConnectN_created hpublished] at hr
        rw [turnOf_eq_some] at hturn
        by_cases hold : r < s.pipeline.created
        · rw [publishConnectN_old hpublished hold] at hturn
          exact ⟨r, hold, turnOf_eq_some.mpr hturn⟩
        · obtain ⟨i, other, rfl, hother⟩ := Sited.pending_of_new rfl (not_lt.mp hold) hr
          rw [publishConnectN_new hpublished hother] at hturn
          refine absurd (List.mem_of_getElem? hother) ?_
          have hsame : other = fd := hturn.1
          rwa [hsame]
      · rintro ⟨r, hr, hturn⟩
        refine ⟨r, ?_, ?_⟩
        · rw [publishConnectN_created hpublished]
          omega
        · rw [turnOf_eq_some] at hturn ⊢
          rwa [publishConnectN_old hpublished hr]
    · rw [NetworkConnections.turn, NetworkConnections.turn, if_neg hfd]
      exact if_neg List.not_mem_nil

theorem publishActive_cases (s : Server cfg) (acquired : Bool) :
    s.publishedFds acquired = [] ∧
      s.publishActive acquired = { s with connections := s.connections.getActiveConnections } ∨
    (s.pipeline.publishConnectN acquired
        s.connections.getActiveConnections.activeConnections).1 = true ∧
      s.publishActive acquired = { s with
        pipeline := (s.pipeline.publishConnectN acquired
          s.connections.getActiveConnections.activeConnections).2
        connections := s.connections.getActiveConnections.clearPendingConnections } := by
  unfold Server.publishActive publishedFds
  cases hpublished : (s.pipeline.publishConnectN acquired
      s.connections.getActiveConnections.activeConnections).1 with
  | true =>
    by_cases hempty : s.connections.getActiveConnections.activeConnections.isEmpty = true
    · refine .inl ⟨?_, if_pos hempty⟩
      simp only [hpublished, if_true]
      exact List.isEmpty_iff.mp hempty
    · refine .inr ⟨rfl, ?_⟩
      simp [hempty, hpublished]
  | false =>
    left
    simp [hpublished, publishConnectN_refused hpublished]

theorem publishActive_run (h : Inv s) (acquired : Bool) :
    conversations.run ((readyFds s.connections).map (·, .dispatch) ++
      (s.publishedFds acquired).map (·, .publish)) s.turn = some (s.publishActive acquired).turn := by
  have hpublish := h.publishActive acquired
  have hdispatched := getActiveConnections_run h
  rcases publishActive_cases s acquired with ⟨hnone, heq⟩ | ⟨hpublished, heq⟩
  · rw [heq, hnone, List.map_nil, List.append_nil]
    exact hdispatched
  · rw [heq] at hpublish ⊢
    have hrun := publishConnectN_run h.getActiveConnections hpublished hpublish
    have hfds : s.publishedFds acquired = s.connections.getActiveConnections.activeConnections :=
      if_pos hpublished
    exact Machine.run_append hdispatched (hfds ▸ hrun)

theorem updateNetworkConnection_cases (h : Inv s) {objectId : Nat} {acquired : Bool} {r : Ref}
    {p : ServerPipeline} (hnext : s.pipeline.getNextCompleted objectId acquired = some (r, p)) :
    (s.updateNetworkConnection p r).pipeline = s.pipeline.modify r .markAsCompletedCompleted ∧
    (s.updateNetworkConnection p r).connections.activeConnections =
      s.connections.activeConnections ∧
    ∀ fd, fd ∈ fds (s.updateNetworkConnection p r).connections.networkConnections ↔
      fd ∈ fds s.connections.networkConnections ∧
        (fd = (s.pipeline.elements r).clientFd →
          (s.pipeline.elements r).isCloseConnectionRequired = false) := by
  have hupdate := updateNetworkConnection_eq h hnext
  obtain ⟨hr, hplace, -⟩ := h.sited.getNext hnext
  have hlocked := h.accounts.locked_of_carried hr (carried_of_place hplace)
  cases hclose : (s.pipeline.elements r).isCloseConnectionRequired with
  | true =>
    obtain ⟨slots, hslots⟩ : ∃ slots, removeConnection (s.pipeline.elements r).clientFd
        s.connections.networkConnections = some slots := changeLocked_isSome hlocked
    rw [hupdate slots (by rw [hclose]; exact hslots)]
    refine ⟨rfl, rfl, fun fd => ?_⟩
    have hperm := (removeConnection_perm hslots).2
    have hgone := (List.nodup_cons.mp (hperm.nodup_iff.mp h.accounts.distinct)).1
    rw [hperm.mem_iff, List.mem_cons]
    constructor
    · exact fun hfd => ⟨.inr hfd, fun heq => absurd (heq ▸ hfd) hgone⟩
    · rintro ⟨heq | hfd, hkept⟩
      · cases hkept heq
      · exact hfd
  | false =>
    obtain ⟨slots, hslots⟩ : ∃ slots, unlockConnection (s.pipeline.elements r).clientFd
        s.connections.networkConnections = some slots := changeLocked_isSome hlocked
    rw [hupdate slots (by rw [hclose]; exact hslots)]
    refine ⟨rfl, rfl, fun fd => ?_⟩
    rw [← (unlockConnection_fds hslots).2]
    exact ⟨fun hfd => ⟨hfd, fun _ => rfl⟩, And.left⟩

theorem updateNetworkConnection_run (h : Inv s) {objectId : Nat} {acquired : Bool} {r : Ref}
    {p : ServerPipeline} (hnext : s.pipeline.getNextCompleted objectId acquired = some (r, p)) :
    conversations.run [((s.pipeline.elements r).clientFd, .settle)] s.turn =
      some (s.updateNetworkConnection p r).turn := by
  have h' := h.updateNetworkConnection hnext
  obtain ⟨hpipeline, hactive, hfds⟩ := updateNetworkConnection_cases h hnext
  obtain ⟨hr, hplace, -⟩ := h.sited.getNext hnext
  have hcarried := carried_of_place hplace
  apply Machine.family_run_singleton
  · have hout : ∀ t, ¬ Carries (s.updateNetworkConnection p r).pipeline
        (s.pipeline.elements r).clientFd t := by
      rw [hpipeline]
      refine not_carries_of_carried fun x hx hx' => ?_
      by_cases hxr : x = r
      · subst hxr
        simp [carried, place_markAsCompletedCompleted] at hx'
      · refine hxr (h.accounts.carried_unique hx hr ?_ hcarried)
        simpa [carried, hxr] using hx'
    have hwaits : (s.pipeline.elements r).clientFd ∉ s.connections.activeConnections :=
      fun hmem => h.accounts.not_carried_of_active hmem hr hcarried
    rw [h.turn_of_place hr hplace, turn_eq_of_not_carries _ hout]
    have hmem := h.accounts.mem_fds_of_carried hr hcarried
    cases hclose : (s.pipeline.elements r).isCloseConnectionRequired <;>
      simp [NetworkConnections.turn, hactive, hwaits, hfds, hmem, hclose, Stage.turn, Turn.next]
  · intro fd hne
    refine turn_congr h h' (fun t => ?_) ?_
    · rw [hpipeline]
      exact carries_modify rfl hne.symm t
    · simp [NetworkConnections.turn, hactive, hfds, hne]

theorem elementFds_update (h : Inv s) {objectId : Nat} {acquired : Bool} {r : Ref}
    {p : ServerPipeline} (hnext : s.pipeline.getNextCompleted objectId acquired = some (r, p))
    (refs : List Ref) : (s.updateNetworkConnection p r).elementFds refs = s.elementFds refs := by
  refine List.map_congr_left fun x _ => ?_
  rw [(updateNetworkConnection_cases h hnext).1]
  by_cases hx : x = r
  · subst hx
    simp [markAsCompletedCompleted]
  · simp [hx]

theorem updateNetworkConnections_run (h : Inv s) {objectId : Nat} {acquired : List Bool}
    (hstep : updateNetworkConnections objectId acquired s = some s') :
    conversations.run ((s.elementFds (settled objectId acquired s)).map (·, .settle)) s.turn =
      some s'.turn := by
  induction acquired generalizing s with
  | nil => cases hstep
  | cons acquired rest ih =>
    rw [Server.updateNetworkConnections] at hstep
    rw [settled]
    cases hnext : s.pipeline.getNextCompleted objectId acquired with
    | none =>
      simp only [hnext] at hstep
      cases hstep
      rfl
    | some next =>
      obtain ⟨r, p⟩ := next
      simp only [hnext] at hstep
      have hlater := ih (h.updateNetworkConnection hnext) hstep
      rw [elementFds_update h hnext] at hlater
      exact Machine.run_append (updateNetworkConnection_run h hnext) hlater

theorem serviceListener_run (h : Inv s) {objectId : Nat} {polling : Polling}
    (hstep : s.serviceListener objectId polling = some s') :
    conversations.run (moves (.listener objectId polling) s) s.turn = some s'.turn := by
  obtain ⟨u, hpolled, hupdated⟩ := Option.bind_eq_some_iff.mp
    ((serviceListener_eq_poll s objectId polling).symm.trans hstep)
  have hu := h.poll hpolled
  have hpublished := publishActive_run hu polling.publishAcquired
  rw [moves, hpolled]
  refine Machine.run_append (poll_run h hpolled) ?_
  simp only [Option.map_some, Option.getD_some, passMoves]
  simp only at hupdated
  split_ifs at hupdated ⊢
  · cases hupdated
    rw [List.append_nil]
    exact hpublished
  · exact Machine.run_append hpublished
      (updateNetworkConnections_run (hu.publishActive polling.publishAcquired) hupdated)

theorem maintain_turn (h : Inv s) (acquired : Stage → Bool) :
    turn { s with pipeline := s.pipeline.doPipelineMaintenance acquired } = s.turn :=
  funext fun _ => turn_congr h (h.maintain acquired) (fun _ => Iff.rfl) rfl

theorem simulates_conversations (cfg : ServerConfig) :
    (machine cfg).Refines conversations turn moves where
  start := by
    funext fd
    change (Server.start cfg).turn fd = .absent
    have hout : ∀ t, ¬ Carries (start cfg).pipeline fd t := fun t ⟨r, hr, _⟩ =>
      Nat.not_lt_zero r hr
    have hnone : fd ∉ fds (start cfg).connections.networkConnections := by
      simp [start, ConnectionAccounts.fds_new]
    rw [turn_eq_of_not_carries (start cfg) hout, NetworkConnections.turn, if_neg hnone]
    exact if_neg List.not_mem_nil
  step s t iteration hs hstep := by
    have h := inv_of_reachable hs
    rcases step_cases h.sited hstep with
      ⟨objectId, polling, rfl, hpass⟩ | ⟨acquired, rfl, rfl⟩ | ⟨stage, hstage, hidle, rfl⟩ |
        ⟨r, v, hvisit, hv⟩
    · exact serviceListener_run h hpass
    · exact congrArg some (maintain_turn h acquired).symm
    · rw [moves_of_stage hstage, hidle]
      rfl
    · rw [moves_of_stage (visit_eq_some hvisit).1, hvisit]
      exact hv.run h

/-- An iteration makes its own moves of the conversations and no others. So in a run of
iterations, one after the other in any order, the moves of a client lead from its absence
to where its conversation stands: its requests are handled one at a time, each stage once
and in order, and it is closed exactly if one of them fails. -/
theorem refines_conversations (cfg : ServerConfig) :
    (machine cfg).Refines conversations turn moves ∧
    ∀ run s, (machine cfg).run run (start cfg) = some s → ∀ fd,
      Machine.run ⟨.absent, Turn.next⟩
        ((((machine cfg).collect moves run (start cfg)).filter (·.1 = fd)).map Prod.snd) .absent =
        some (s.turn fd) := by
  have hrefines := simulates_conversations cfg
  refine ⟨hrefines, fun run s hrun fd => ?_⟩
  have hwhole := hrefines.run .start hrun
  rw [hrefines.start] at hwhole
  exact Machine.family_run_at hwhole fd

end Server

end MultiplexServer

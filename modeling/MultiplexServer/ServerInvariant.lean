import MultiplexServer.ConnectionAccounts
import MultiplexServer.ServerSteps

/-! The invariant of the whole server: the elements live their lives and stand where they
belong, every locked connection is accounted for, and the listener's verdicts hold. -/

namespace MultiplexServer

namespace ServerPipeline

open ServerPipelineElement

/-- The descriptor of an element that some stage still has to deal with. -/
def carried (p : ServerPipeline) (r : Ref) : Option Int :=
  if (p.elements r).place.isSome then some (p.elements r).clientFd else none

theorem carried_congr {p q : ServerPipeline} {r : Ref}
    (hfd : (q.elements r).clientFd = (p.elements r).clientFd)
    (hplace : (q.elements r).place.isSome = (p.elements r).place.isSome) :
    q.carried r = p.carried r := by
  rw [carried, carried, hfd, hplace]

theorem carried_of_place {p : ServerPipeline} {r : Ref} {stage : Stage}
    (h : (p.elements r).place = some stage) : p.carried r = some (p.elements r).clientFd := by
  rw [carried, h]
  rfl

end ServerPipeline

namespace Server

open Strings ServerPipeline ServerPipelineElement NetworkConnections

variable {cfg : ServerConfig} {s s' : Server cfg}

def Outcome (taken : ServerPipelineElement) (connection : Option NetworkConnection)
    (isOpen : Bool) : Prop :=
  if taken.isCloseConnectionRequired then connection = none ∧ isOpen = false
  else connection = some ⟨taken.clientFd, false⟩ ∧ isOpen = true

structure Inv (s : Server cfg) : Prop where
  sited : Sited cfg s.pipeline s.log
  accounts : ConnectionAccounts s.connections (· ∈ s.openFds) s.pipeline.created
    s.pipeline.carried
  listening : cfg.listenerFd ∈ s.openFds
  notListener : cfg.listenerFd ∉ fds s.connections.networkConnections
  nonneg : ∀ fd ∈ fds s.connections.networkConnections, 0 ≤ fd
  outcome : ∀ r taken connection isOpen, Visit.complete taken connection isOpen ∈ s.log r →
    Outcome taken connection isOpen

theorem inv_start (cfg : ServerConfig) : Inv (start cfg) where
  sited := Sited.new cfg
  accounts := ConnectionAccounts.new cfg.maximumClients _ _
  listening := List.mem_singleton_self _
  notListener := by simp [start, ConnectionAccounts.fds_new]
  nonneg := by simp [start, ConnectionAccounts.fds_new]
  outcome _ _ _ _ h := by cases h

theorem mem_note {r x : Ref} {visit other : Visit} :
    other ∈ s.note r visit x ↔ other ∈ s.log x ∨ x = r ∧ other = visit := by
  by_cases hx : x = r
  · subst hx
    simp [note]
  · simp [note, hx]

theorem Inv.visits (h : Inv s) {r : Ref} {visit : Visit} (hv : Visits s s' r visit) :
    Inv s' where
  sited := by
    rw [hv.pipeline, hv.log]
    exact h.sited.advance hv.created hv.place hv.life hv.next hv.later.le
  accounts := by
    rw [hv.connections, hv.openFds, hv.pipeline]
    refine h.accounts.congr (fun _ _ => id) fun x _ => ?_
    by_cases hx : x = r
    · subst hx
      apply carried_congr <;> simp [hv.life.clientFd, hv.next, hv.place]
    · apply carried_congr <;> simp [hx]
  listening := by rw [hv.openFds]; exact h.listening
  notListener := by rw [hv.connections]; exact h.notListener
  nonneg := by rw [hv.connections]; exact h.nonneg
  outcome x taken connection isOpen hmem := by
    rw [hv.log] at hmem
    rcases mem_note.mp hmem with hold | ⟨-, hnew⟩
    · exact h.outcome x taken connection isOpen hold
    · exact absurd hnew.symm (hv.underWay taken connection isOpen)

theorem Inv.maintain (h : Inv s) (acquired : Stage → Bool) :
    Inv { s with pipeline := s.pipeline.doPipelineMaintenance acquired } :=
  { h with sited := h.sited.maintain acquired }

/-! ## The listener -/

theorem Inv.select (h : Inv s) (networkSockets : List Int) :
    Inv { s with connections := { s.connections with networkSockets } } :=
  { h with accounts := h.accounts.select networkSockets }

theorem mem_closeFd {fd other : Int} {openFds : List Int} (h : 0 ≤ fd) :
    other ∈ closeFd fd openFds ↔ other ∈ openFds ∧ other ≠ fd := by
  simp [closeFd, h]

theorem Inv.accept (h : Inv s) {newFd : Int} (hstep : s.connectAccept newFd = some s') :
    Inv s' := by
  unfold connectAccept at hstep
  split_ifs at hstep with hneg hopen
  · exact Option.some.inj hstep ▸ h
  have hnonneg : 0 ≤ newFd := Int.not_lt.mp hneg
  split at hstep
  · cases hstep
    have hkeep : ∀ fd ∈ s.openFds, fd ∈ closeFd newFd (newFd :: s.openFds) := by
      intro fd hfd
      have hne : fd ≠ newFd := fun heq => hopen (heq ▸ hfd)
      exact (mem_closeFd hnonneg).mpr ⟨List.mem_cons_of_mem newFd hfd, hne⟩
    exact { h with
      accounts := h.accounts.congr (fun fd _ => hkeep fd) fun _ _ => rfl
      listening := hkeep _ h.listening }
  · rename_i slots hslots
    cases hstep
    obtain ⟨haccounts, hmem⟩ := h.accounts.add hopen hslots
      (fun fd hfd => List.mem_cons_of_mem newFd hfd) List.mem_cons_self
    refine { h with
      accounts := haccounts
      listening := List.mem_cons_of_mem _ h.listening
      notListener := fun hlistener => ?_
      nonneg := fun fd hfd => ?_ }
    · rcases hmem _ hlistener with heq | hold
      · exact hopen (heq ▸ h.listening)
      · exact h.notListener hold
    · rcases hmem fd hfd with rfl | hold
      · exact hnonneg
      · exact h.nonneg fd hold

theorem Inv.getActiveConnections (h : Inv s) :
    Inv { s with connections := s.connections.getActiveConnections } where
  sited := h.sited
  accounts := h.accounts.getActive
  listening := h.listening
  notListener := by rw [fds_getActiveConnections]; exact h.notListener
  nonneg := by rw [fds_getActiveConnections]; exact h.nonneg
  outcome := h.outcome

theorem Inv.publishActive (h : Inv s) (acquired : Bool) : Inv (s.publishActive acquired) := by
  have hactive := h.getActiveConnections
  simp only [Server.publishActive]
  split_ifs with hempty hpublished
  · exact hactive
  · refine { hactive with sited := h.sited.publish hpublished, accounts := ?_ }
    simp only [publishConnectN_created hpublished]
    refine hactive.accounts.publish (fun r hr => ?_) fun i fd hfd => ?_
    · rw [carried, carried, publishConnectN_old hpublished hr]
    · rw [carried, publishConnectN_new hpublished hfd]
      rfl
  · have hsame : (s.pipeline.publishConnectN acquired
        s.connections.getActiveConnections.activeConnections).2 = s.pipeline := by
      simp only [publishConnectN] at hpublished ⊢
      split_ifs at hpublished ⊢ with hdone
      · exact absurd rfl hpublished
      · rfl
    rw [hsame]
    exact hactive

theorem updateNetworkConnection_eq (h : Inv s) {objectId : Nat} {acquired : Bool} {r : Ref}
    {p : ServerPipeline} (hnext : s.pipeline.getNextCompleted objectId acquired = some (r, p))
    (slots : List (Option NetworkConnection))
    (hslots : (if (s.pipeline.elements r).isCloseConnectionRequired
      then removeConnection (s.pipeline.elements r).clientFd s.connections.networkConnections
      else unlockConnection (s.pipeline.elements r).clientFd
        s.connections.networkConnections) = some slots) :
    s.updateNetworkConnection p r = { s with
      connections := { s.connections with networkConnections := slots }
      openFds := if (s.pipeline.elements r).isCloseConnectionRequired
        then closeFd (s.pipeline.elements r).clientFd s.openFds else s.openFds
      pipeline := s.pipeline.modify r .markAsCompletedCompleted
      log := s.note r (.complete (s.pipeline.elements r)
        ((table slots).find? (·.clientFd = (s.pipeline.elements r).clientFd))
        ((if (s.pipeline.elements r).isCloseConnectionRequired
          then closeFd (s.pipeline.elements r).clientFd s.openFds
          else s.openFds).contains (s.pipeline.elements r).clientFd)) } := by
  obtain ⟨hr, -, rfl⟩ := h.sited.getNext hnext
  have hfree := (h.sited.life r hr).free
  have hpipeline : ((s.pipeline.modify r (.lockedBy objectId)).modify r
      .markAsCompletedCompleted).modify r .unlock =
      s.pipeline.modify r .markAsCompletedCompleted := by
    rw [modify_modify, modify_modify]
    apply modify_congr
    exact congrArg markAsCompletedCompleted (hfree.unlock_lockedBy objectId)
  simp only [Server.updateNetworkConnection, hpipeline]
  simp only [modify_elements, Function.update_self, lockedBy, hslots, Option.getD_some]

theorem Inv.outcome_note (h : Inv s) {r : Ref} {e : ServerPipelineElement}
    {found : Option NetworkConnection} {stillOpen : Bool} (hnew : Outcome e found stillOpen)
    (x : Ref) (taken : ServerPipelineElement) (connection : Option NetworkConnection)
    (isOpen : Bool)
    (hmem : .complete taken connection isOpen ∈ s.note r (.complete e found stillOpen) x) :
    Outcome taken connection isOpen := by
  rcases mem_note.mp hmem with hbefore | ⟨-, hlast⟩
  · exact h.outcome x taken connection isOpen hbefore
  · cases hlast
    exact hnew

theorem Inv.updateNetworkConnection (h : Inv s) {objectId : Nat} {acquired : Bool} {r : Ref}
    {p : ServerPipeline} (hnext : s.pipeline.getNextCompleted objectId acquired = some (r, p)) :
    Inv (s.updateNetworkConnection p r) := by
  have hupdate := updateNetworkConnection_eq h hnext
  obtain ⟨hr, hplace, -⟩ := h.sited.getNext hnext
  have hlife := h.sited.life r hr
  have hcarried := carried_of_place hplace
  have hsettled : (s.pipeline.modify r .markAsCompletedCompleted).carried r = none := by
    simp [carried, place_markAsCompletedCompleted]
  have hothers : ∀ x, x ≠ r →
      (s.pipeline.modify r .markAsCompletedCompleted).carried x = s.pipeline.carried x := by
    intro x hx
    simp [carried, hx]
  have hnonneg := h.nonneg _ (h.accounts.mem_fds_of_carried hr hcarried)
  cases hclose : (s.pipeline.elements r).isCloseConnectionRequired with
  | true =>
    obtain ⟨slots, hslots, hgone, hsub, haccounts⟩ :=
      h.accounts.remove hr hcarried hsettled hothers
    rw [hupdate slots (by rw [hclose]; exact hslots)]
    simp only [hclose, if_true]
    have hkeep : ∀ fd ∈ s.openFds, fd ≠ (s.pipeline.elements r).clientFd →
        fd ∈ closeFd (s.pipeline.elements r).clientFd s.openFds := fun fd hmem hne =>
      (mem_closeFd hnonneg).mpr ⟨hmem, hne⟩
    refine ⟨h.sited.finish hr (hlife.complete hplace) rfl, ?_, ?_, ?_, ?_, ?_⟩
    · refine haccounts.congr (fun fd hfd hopen => hkeep fd hopen ?_) fun _ _ => rfl
      exact fun heq => hgone (heq ▸ hfd)
    · refine hkeep _ h.listening fun heq => h.notListener ?_
      exact heq ▸ h.accounts.mem_fds_of_carried hr hcarried
    · exact fun hmem => h.notListener (hsub _ hmem)
    · exact fun fd hmem => h.nonneg fd (hsub fd hmem)
    · refine h.outcome_note ((if_pos hclose).mpr ⟨find?_eq_none hgone, ?_⟩)
      simp [closeFd, hnonneg]
  | false =>
    obtain ⟨slots, hslots, hkept, hsame, haccounts⟩ :=
      h.accounts.unlock hr hcarried hsettled hothers
    rw [hupdate slots (by rw [hclose]; exact hslots)]
    simp only [hclose, Bool.false_eq_true, if_false]
    refine ⟨h.sited.finish hr (hlife.complete hplace) rfl, haccounts, h.listening, ?_, ?_, ?_⟩
    · rw [hsame]; exact h.notListener
    · rw [hsame]; exact h.nonneg
    · have hopen := h.accounts.opened _ (h.accounts.mem_fds_of_carried hr hcarried)
      refine h.outcome_note ((if_neg (by simp [hclose])).mpr
        ⟨find?_eq_some haccounts.distinct hkept, ?_⟩)
      simpa using hopen

theorem Inv.updateNetworkConnections (h : Inv s) {objectId : Nat} {acquired : List Bool}
    (hstep : updateNetworkConnections objectId acquired s = some s') : Inv s' := by
  induction acquired generalizing s with
  | nil => cases hstep
  | cons acquired rest ih =>
    rw [Server.updateNetworkConnections] at hstep
    split at hstep
    · exact Option.some.inj hstep ▸ h
    · rename_i r p hnext
      exact ih (h.updateNetworkConnection hnext) hstep

theorem Inv.serviceListener (h : Inv s) {objectId : Nat} {polling : Polling}
    (hstep : s.serviceListener objectId polling = some s') : Inv s' := by
  simp only [Server.serviceListener, Option.bind_eq_bind, Option.bind_eq_some_iff] at hstep
  obtain ⟨u, haccepted, hupdated⟩ := hstep
  have hu : Inv u := by
    rw [connectSelect_snd] at haccepted
    unfold acceptNewClient at haccepted
    split_ifs at haccepted
    · exact (h.select _).accept haccepted
    · exact Option.some.inj haccepted ▸ h.select _
  split_ifs at hupdated
  · exact Option.some.inj hupdated ▸ hu.publishActive _
  · exact (hu.publishActive _).updateNetworkConnections hupdated

theorem Inv.step (h : Inv s) {iteration : Iteration} (hstep : step iteration s = some s') :
    Inv s' := by
  rcases step_cases h.sited hstep with
    ⟨objectId, polling, rfl, hpass⟩ | ⟨acquired, rfl, rfl⟩ | ⟨-, -, -, rfl⟩ | ⟨r, v, -, hv⟩
  · exact h.serviceListener hpass
  · exact h.maintain acquired
  · exact h
  · exact h.visits hv

theorem inv_of_reachable (h : (machine cfg).Reachable s) : Inv s :=
  h.invariant (I := Inv) (inv_start cfg) fun _ _ _ _ hs hstep => hs.step hstep

end Server

end MultiplexServer

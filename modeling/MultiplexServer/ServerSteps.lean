import MultiplexServer.ServerSites

/-! What one iteration of a worker does, said once: nothing, or one visit that moves
one element from its stage to a later one. -/

namespace MultiplexServer.Server
open Strings ServerPipeline ServerPipelineElement
open NetworkReaderService NetworkWriterService DatamodelService

variable {cfg : ServerConfig} {s s' : Server cfg}

/-- The element that a worker is handed in this iteration, and what comes of it. -/
def visit : Iteration → Server cfg → Option (Ref × Visit)
  | .reader objectId acquired setsockopt events, s => do
    let (r, p) ← s.pipeline.getNextRequest objectId acquired
    match serviceRead cfg.reader (s.readers objectId) setsockopt events with
    | some (.ok (status, reader)) =>
      some (r, .read (p.elements r).clientFd setsockopt events status reader.resultBuffer)
    | _ => none
  | .datamodel objectId acquired, s => do
    let (r, p) ← s.pipeline.getNextDatamodel objectId acquired
    let (status, result) := DatamodelService.serviceDatamodel cfg.lib (s.datamodels objectId)
      (p.elements r).request
    some (r, .compute status result)
  | .writer objectId acquired setsockopt events, s => do
    let (r, p) ← s.pipeline.getNextResponse objectId acquired
    let (status, accepted) ← serviceWrite cfg.writer (p.elements r).response setsockopt events
    some (r, .write (p.elements r).clientFd setsockopt (p.elements r).response events status
      accepted)
  | .listener _ _, _ | .maintenance _, _ => none

def Iteration.stage : Iteration → Option Stage
  | .reader .. => some .request
  | .datamodel .. => some .datamodel
  | .writer .. => some .response
  | .listener .. | .maintenance .. => none

theorem visit_eq_some {iteration : Iteration} {r : Ref} {v : Visit}
    (h : visit iteration s = some (r, v)) :
    iteration.stage = some v.stage ∧
      ∃ objectId acquired p, s.pipeline.getNext v.stage objectId acquired = some (r, p) := by
  cases iteration with
  | reader objectId acquired setsockopt events =>
    obtain ⟨⟨x, p⟩, hnext, hv⟩ := Option.bind_eq_some_iff.mp h
    dsimp only at hv
    split at hv <;> cases hv
    exact ⟨rfl, objectId, acquired, p, hnext⟩
  | datamodel objectId acquired =>
    obtain ⟨⟨x, p⟩, hnext, hv⟩ := Option.bind_eq_some_iff.mp h
    cases hv
    exact ⟨rfl, objectId, acquired, p, hnext⟩
  | writer objectId acquired setsockopt events =>
    obtain ⟨⟨x, p⟩, hnext, hv⟩ := Option.bind_eq_some_iff.mp h
    obtain ⟨⟨status, accepted⟩, -, hv⟩ := Option.bind_eq_some_iff.mp hv
    cases hv
    exact ⟨rfl, objectId, acquired, p, hnext⟩
  | listener objectId polling => cases h
  | maintenance acquired => cases h

structure Visits (s s' : Server cfg) (r : Ref) (visit : Visit) : Prop where
  created : r < s.pipeline.created
  place : (s.pipeline.elements r).place = some visit.stage
  underWay : visit.UnderWay
  life : Life cfg (s.pipeline.elements r).clientFd (s.log r ++ [visit])
    (visit.effect (s.pipeline.elements r))
  pipeline : s'.pipeline = (s.pipeline.push visit.target r).modify r visit.effect
  log : s'.log = s.note r visit
  connections : s'.connections = s.connections
  openFds : s'.openFds = s.openFds

theorem Visits.later {r : Ref} {visit : Visit} (hv : Visits s s' r visit) :
    visit.stage.rank < visit.target.rank :=
  hv.underWay.later

theorem Visits.next {r : Ref} {visit : Visit} (hv : Visits s s' r visit) :
    (visit.effect (s.pipeline.elements r)).place = some visit.target :=
  hv.underWay.place_effect hv.place

theorem serviceReader_cases (h : Sited cfg s.pipeline s.log) {objectId : Nat} {acquired : Bool}
    {setsockopt : Int} {events : List RecvEvent}
    (hstep : s.serviceReader objectId acquired setsockopt events = some s') :
    visit (.reader objectId acquired setsockopt events) s = none ∧ s' = s ∨
    ∃ r v, visit (.reader objectId acquired setsockopt events) s = some (r, v) ∧
      Visits s s' r v := by
  unfold serviceReader at hstep
  cases hnext : s.pipeline.getNextRequest objectId acquired with
  | none =>
    simp only [hnext] at hstep
    exact .inl ⟨by rw [visit, hnext]; rfl, (Option.some.inj hstep).symm⟩
  | some next =>
    obtain ⟨r, p⟩ := next
    obtain ⟨hr, hplace, rfl⟩ := h.getNext hnext
    have hlife := h.life r hr
    have hnew := (hlife.at_request hplace).2
    simp only [hnext] at hstep
    split at hstep
    · rename_i status reader hread
      cases hstep
      refine .inr ⟨r, .read (s.pipeline.elements r).clientFd setsockopt events status
        reader.resultBuffer, ?_, hr, hplace, fun _ _ _ => Visit.noConfusion, ?_, ?_, ?_, rfl, rfl⟩
      · rw [visit, hnext]
        simp [hread, lockedBy]
      · rw [serviceRead_service cfg.reader _ default] at hread
        exact hlife.read hplace hread
      · exact leave_reader objectId hlife.free (by rw [hnew]; rfl) status reader.resultBuffer
      · simp [lockedBy]
    · cases hstep

theorem serviceDatamodel_cases (h : Sited cfg s.pipeline s.log) (objectId : Nat)
    (acquired : Bool) :
    visit (.datamodel objectId acquired) s = none ∧ s.serviceDatamodel objectId acquired = s ∨
    ∃ r v, visit (.datamodel objectId acquired) s = some (r, v) ∧
      Visits s (s.serviceDatamodel objectId acquired) r v := by
  unfold Server.serviceDatamodel
  cases hnext : s.pipeline.getNextDatamodel objectId acquired with
  | none => exact .inl ⟨by rw [visit, hnext]; rfl, rfl⟩
  | some next =>
    obtain ⟨r, p⟩ := next
    obtain ⟨hr, hplace, rfl⟩ := h.getNext hnext
    have hlife := h.life r hr
    obtain ⟨payload, before, -, -, hread⟩ := hlife.at_datamodel hplace
    have hrequest : ((s.pipeline.modify r (.lockedBy objectId)).elements r).request =
        (s.pipeline.elements r).request := by
      simp [lockedBy]
    simp only [hrequest]
    cases hdone : DatamodelService.serviceDatamodel cfg.lib (s.datamodels objectId)
      (s.pipeline.elements r).request with
    | mk status result =>
    refine .inr ⟨r, .compute status result, ?_, hr, hplace, fun _ _ _ => Visit.noConfusion, ?_, ?_,
      rfl, rfl, rfl⟩
    · rw [visit, hnext]
      simp only [Option.bind_eq_bind, Option.bind_some, hrequest, hdone]
    · rw [serviceDatamodel_buffer cfg.lib _ []] at hdone
      exact hlife.compute hplace hdone
    · exact leave_datamodel objectId hlife.free (by rw [hread]; rfl) status result

theorem serviceWriter_cases (h : Sited cfg s.pipeline s.log) {objectId : Nat} {acquired : Bool}
    {setsockopt : Int} {events : List SendEvent}
    (hstep : s.serviceWriter objectId acquired setsockopt events = some s') :
    visit (.writer objectId acquired setsockopt events) s = none ∧ s' = s ∨
    ∃ r v, visit (.writer objectId acquired setsockopt events) s = some (r, v) ∧
      Visits s s' r v := by
  unfold serviceWriter at hstep
  cases hnext : s.pipeline.getNextResponse objectId acquired with
  | none =>
    simp only [hnext] at hstep
    exact .inl ⟨by rw [visit, hnext]; rfl, (Option.some.inj hstep).symm⟩
  | some next =>
    obtain ⟨r, p⟩ := next
    obtain ⟨hr, hplace, rfl⟩ := h.getNext hnext
    have hlife := h.life r hr
    have hresponse : ((s.pipeline.modify r (.lockedBy objectId)).elements r).response =
        (s.pipeline.elements r).response := by
      simp [lockedBy]
    simp only [hnext, hresponse] at hstep
    split at hstep
    · rename_i status accepted hwrite
      cases hstep
      refine .inr ⟨r, .write (s.pipeline.elements r).clientFd setsockopt
        (s.pipeline.elements r).response events status accepted, ?_, hr, hplace,
        fun _ _ _ => Visit.noConfusion, hlife.write hplace hwrite, ?_, ?_, rfl, rfl⟩
      · rw [visit, hnext]
        simp only [Option.bind_eq_bind, Option.bind_some, hresponse, hwrite]
        simp [lockedBy]
      · exact leave_writer objectId hlife.free status
      · simp [lockedBy]
    · cases hstep

/-- An iteration is a pass of the listener or of the maintenance, or a worker's, which
finds nothing or pays one visit. -/
theorem step_cases (h : Sited cfg s.pipeline s.log) {iteration : Iteration}
    (hstep : step iteration s = some s') :
    (∃ objectId polling, iteration = .listener objectId polling ∧
      s.serviceListener objectId polling = some s') ∨
    (∃ acquired, iteration = .maintenance acquired ∧
      s' = { s with pipeline := s.pipeline.doPipelineMaintenance acquired }) ∨
    (∃ stage, iteration.stage = some stage ∧ visit iteration s = none ∧ s' = s) ∨
    ∃ r v, visit iteration s = some (r, v) ∧ Visits s s' r v := by
  cases iteration with
  | reader objectId acquired setsockopt events =>
    refine .inr (.inr ((serviceReader_cases h hstep).imp_left fun hidle => ?_))
    exact ⟨.request, rfl, hidle⟩
  | datamodel objectId acquired =>
    cases hstep
    refine .inr (.inr ((serviceDatamodel_cases h objectId acquired).imp_left fun hidle => ?_))
    exact ⟨.datamodel, rfl, hidle⟩
  | writer objectId acquired setsockopt events =>
    refine .inr (.inr ((serviceWriter_cases h hstep).imp_left fun hidle => ?_))
    exact ⟨.response, rfl, hidle⟩
  | listener objectId polling => exact .inl ⟨objectId, polling, rfl, hstep⟩
  | maintenance acquired => exact .inr (.inl ⟨acquired, rfl, (Option.some.inj hstep).symm⟩)

end MultiplexServer.Server

import MultiplexServer.ServerConnections

/-! What the listener finds in the completed pipe: an element whose stages have all
succeeded, or one that a single stage has given up. -/

namespace MultiplexServer

namespace ServerPipelineElement

end ServerPipelineElement

namespace Life

open ServerPipelineElement

variable {cfg : ServerConfig} {fd : Int} {log : List Visit} {e : ServerPipelineElement}

theorem Settled.not_complete (h : Settled cfg fd log e) {taken : ServerPipelineElement}
    {connection : Option NetworkConnection} {isOpen : Bool} :
    Visit.complete taken connection isOpen ∉ log := by
  cases h with
  | unread => simp
  | uncomputed read done failed =>
    obtain ⟨-, -, -, rfl, -⟩ := read
    simp
  | unwritten read done sent failed =>
    obtain ⟨-, -, -, rfl, -⟩ := read
    simp
  | written read done sent =>
    obtain ⟨-, -, -, rfl, -⟩ := read
    simp

theorem settled_of_late (h : Life cfg fd log e) {visit : Visit} (hmem : visit ∈ log)
    (hlate : visit.stage = .response ∨ visit.stage = .completed) :
    ∃ log' e', Settled cfg fd log' e' ∧
      (log = log' ∨ ∃ connection isOpen, log = log' ++ [.complete e' connection isOpen]) := by
  cases hplace : e.place with
  | none =>
    obtain ⟨log', e', connection, isOpen, hsettled, rfl, -⟩ := h.at_end hplace
    exact ⟨log', e', hsettled, .inr ⟨connection, isOpen, rfl⟩⟩
  | some stage =>
    cases stage with
    | request =>
      obtain ⟨rfl, -⟩ := h.at_request hplace
      cases hmem
    | datamodel =>
      obtain ⟨_, _, ⟨_, _, _, rfl, -⟩, rfl, -⟩ := h.at_datamodel hplace
      cases List.mem_singleton.mp hmem
      rcases hlate with hlate | hlate <;> cases hlate
    | response =>
      obtain ⟨_, _, _, ⟨_, _, _, rfl, -⟩, -, rfl, -⟩ := h.at_response hplace
      simp only [List.mem_cons, List.not_mem_nil, or_false] at hmem
      rcases hmem with rfl | rfl <;> rcases hlate with hlate | hlate <;> cases hlate
    | completed => exact ⟨log, e, h.at_completed hplace, .inl rfl⟩

theorem of_complete (h : Life cfg fd log e) {taken : ServerPipelineElement}
    {connection : Option NetworkConnection} {isOpen : Bool}
    (hmem : Visit.complete taken connection isOpen ∈ log) :
    ∃ log', Settled cfg fd log' taken ∧ log = log' ++ [.complete taken connection isOpen] := by
  obtain ⟨log', e', hsettled, rfl | ⟨connection', isOpen', rfl⟩⟩ :=
    h.settled_of_late hmem (.inr rfl)
  · exact absurd hmem hsettled.not_complete
  · rcases List.mem_append.mp hmem with hbefore | hlast
    · exact absurd hbefore hsettled.not_complete
    · cases List.mem_singleton.mp hlast
      exact ⟨log', hsettled, rfl⟩

end Life

namespace Server

variable {cfg : ServerConfig} {s : Server cfg} {r : Ref}

theorem Inv.life_of_mem (h : Inv s) {visit : Visit} (hmem : visit ∈ s.log r) :
    Life cfg (s.pipeline.elements r).clientFd (s.log r) (s.pipeline.elements r) := by
  apply h.sited.life
  by_contra hr
  rw [h.sited.unlogged r (not_lt.mp hr)] at hmem
  cases hmem

end Server

end MultiplexServer

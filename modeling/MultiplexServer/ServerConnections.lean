import MultiplexServer.NetworkReaderExceptions
import MultiplexServer.NetworkWriterDelivery
import MultiplexServer.ServerInvariant

/-! What the invariant says about the clients: a locked connection is waiting or in
flight once, and an element in flight is waited for by one stage. -/

namespace MultiplexServer.Server
open Strings ServerPipeline NetworkConnections

variable {cfg : ServerConfig} {s : Server cfg}

instance (p : ServerPipeline) (r : Ref) : Decidable (∃ stage, p.Eligible stage r) :=
  decidable_of_iff (p.Eligible .request r ∨ p.Eligible .datamodel r ∨ p.Eligible .response r ∨
      p.Eligible .completed r) <| by
    constructor
    · rintro (h | h | h | h) <;> exact ⟨_, h⟩
    · rintro ⟨stage, h⟩
      cases stage <;> simp [h]

/-- How often a descriptor waits to be published or is carried by an element that is
eligible in some pipe. -/
def occurrences (s : Server cfg) (fd : Int) : Nat :=
  s.connections.activeConnections.count fd +
    (List.range s.pipeline.created).countP fun r =>
      (s.pipeline.elements r).clientFd = fd ∧ ∃ stage, s.pipeline.Eligible stage r

theorem Inv.occurrences_eq (h : Inv s) (fd : Int) :
    s.occurrences fd = lockedCount fd s.connections.networkConnections := by
  rw [occurrences, ← h.accounts.tokens fd]
  congr 1
  apply List.countP_congr
  intro r hr
  have hsome : (∃ stage, s.pipeline.Eligible stage r) ↔
      (s.pipeline.elements r).place.isSome = true := by
    simp only [h.sited.eligible_iff (List.mem_range.mp hr), Option.isSome_iff_exists]
  simp only [carried, hsome]
  split_ifs with hplace <;> simp [hplace]

theorem Inv.occurrences_of_mem (h : Inv s) {c : NetworkConnection}
    (hc : c ∈ table s.connections.networkConnections) :
    s.occurrences c.clientFd = if c.locked then 1 else 0 := by
  rw [h.occurrences_eq, lockedCount_eq h.accounts.distinct hc]

theorem Inv.eligible_unique (h : Inv s) {r : Ref} {stage : Stage}
    (he : s.pipeline.Eligible stage r) : ∃! stage, s.pipeline.Eligible stage r := by
  have hr := h.sited.created_of_eligible he
  refine ⟨stage, he, fun other hother => ?_⟩
  have hplace := (h.sited.eligible_iff hr stage).mp he
  have hplace' := (h.sited.eligible_iff hr other).mp hother
  exact Option.some.inj (hplace'.symm.trans hplace)

theorem locked_iff_occurs_once (h : (machine cfg).Reachable s) :
    (∀ c ∈ table s.connections.networkConnections,
      c.locked = true ↔ s.occurrences c.clientFd = 1) ∧
    ∀ r, (∃ stage, s.pipeline.Eligible stage r) → ∃! stage, s.pipeline.Eligible stage r := by
  have hinv := inv_of_reachable h
  constructor
  · intro c hc
    rw [hinv.occurrences_of_mem hc]
    cases c.locked <;> simp
  · rintro r ⟨stage, he⟩
    exact hinv.eligible_unique he

/-! ## A run -/

def ascii (text : String) : Bytes := text.toList.map fun c => c.toNat.toUInt8

def pingText (pingId : Int) : Bytes :=
  ascii "\x7b\"body\":\x7b\"ping_id\":" ++ ascii (toString pingId) ++ ascii "\x7d\x7d"

def pingLibrary : JsonLibrary where
  parse request :=
    if request = pingText 1 then some (.object [("body", .object [("ping_id", .unsigned 1)])])
    else none
  dump
    | .object [(_, .object [(_, .integer pingId)])] => pingText pingId.toInt
    | _ => ascii "\x7b\"body\":\"invalid request\"\x7d"
  outOfRange _ := 0
  dump_ne_nil j := by split <;> exact nofun

def shipped : ServerConfig where
  lib := pingLibrary
  reader := NetworkReaderService.shippedConfig
  writer := NetworkWriterService.shippedConfig
  maximumClients := 2
  listenerFd := 3

def connect : List Iteration :=
  [.listener 0 ⟨.ready [3], 4, true, false, [true]⟩,
    .listener 0 ⟨.ready [4], -1, true, false, [true]⟩]

def closing : Iteration := .listener 0 ⟨.ready [], -1, true, false, [true, true]⟩

theorem locked_iff_occurs_once_connect :
    ∃ s, (machine shipped).run connect (start shipped) = some s ∧ s.occurrences 4 = 1 ∧
      ∃! stage, s.pipeline.Eligible stage 0 := by
  have hrun : ((machine shipped).run connect (start shipped)).map (fun s =>
      (table s.connections.networkConnections, decide (s.pipeline.Eligible .request 0))) =
      some ([⟨4, true⟩], true) := by decide
  obtain ⟨s, hs, hstate⟩ := Option.map_eq_some_iff.mp hrun
  obtain ⟨htable, heligible⟩ := Prod.mk.inj hstate
  have hclients := locked_iff_occurs_once (Machine.reachable_of_run hs)
  exact ⟨s, hs, (hclients.1 ⟨4, true⟩ (by simp [htable])).mp rfl,
    hclients.2 0 ⟨.request, of_decide_eq_true heligible⟩⟩

end MultiplexServer.Server

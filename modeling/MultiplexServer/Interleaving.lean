import MultiplexServer.Server

/-! The server at the grain of its atomic steps. Every worker and the listener stand at
a point of their code; between any two steps of one of them the others may move. The
mutex of a pipe covers the scan of that pipe, not what the holder of an element does. -/

namespace MultiplexServer
open Strings NetworkConnections

inductive Worker where
  | reader
  | datamodel
  | writer
  deriving DecidableEq

inductive Thread where
  | listener
  | worker (i : Nat)
  deriving DecidableEq

structure InterleavingConfig where
  role : Nat → Worker
  objectId : Thread → Nat
  maximumClients : Nat
  listenerFd : Int

namespace Worker

def stage : Worker → Stage
  | .reader => .request
  | .datamodel => .datamodel
  | .writer => .response

def markAsCompleted : Worker → ServerPipelineElement → ServerPipelineElement
  | .reader => .markAsRequestCompleted
  | .datamodel => .markAsDatamodelCompleted
  | .writer => .markAsResponseCompleted

def markAsFailed : Worker → ServerPipelineElement → ServerPipelineElement
  | .reader => .markAsRequestFailed
  | .datamodel => .markAsDatamodelFailed
  | .writer => .markAsResponseFailed

end Worker

inductive Action where
  | setRequestString (s : Bytes)
  | setResponseString (s : Bytes)
  | checkOwner
  | push (stage : Stage)
  | markAsCloseConnectionRequired
  | markAsCompleted (w : Worker)
  | markAsFailed (w : Worker)
  deriving DecidableEq

namespace Action

def apply (objectId : Nat) (e : ServerPipelineElement) : Action → Option ServerPipelineElement
  | .setRequestString s => e.setRequestString s
  | .setResponseString s => e.setResponseString s
  | .checkOwner => if e.lockedById ≠ objectId then none else some e
  | .push _ => some e
  | .markAsCloseConnectionRequired => some e.markAsCloseConnectionRequired
  | .markAsCompleted w => some (w.markAsCompleted e)
  | .markAsFailed w => some (w.markAsFailed e)

end Action

/-- The rest of an iteration whose service answered OK, up to the unlock; the callback
that would mark the failure is cancelled. -/
def publishOk : Worker → Bytes → List Action
  | .reader, s => [.setRequestString s, .checkOwner, .push .datamodel, .markAsCompleted .reader]
  | .datamodel, s =>
    [.setResponseString s, .checkOwner, .push .response, .markAsCompleted .datamodel]
  | .writer, _ => [.checkOwner, .push .completed, .markAsCompleted .writer]

def publishNotOk (w : Worker) : List Action :=
  [.markAsCloseConnectionRequired, .checkOwner, .push .completed, .markAsCompleted .writer,
    .markAsFailed w]

def brokenOff (w : Worker) : List Action := [.markAsFailed w]

/-- Where a thread stands. `idle` to `returning` are `get_next_*`: the load of `_is_empty`,
the mutex, the loop with `skip_predicate`, the load of `_is_locked`, its exchange and the
store of `_locked_by_id`, and the release of the mutex. While it is `serving`, a worker
makes its calls of `recv` or `send`. The points from `removing` on are the listener's. -/
inductive Pc where
  | polling
  | announcing
  | idle
  | locking
  | testing (todo : List Ref)
  | loading (r : Ref) (todo : List Ref)
  | exchanging (r : Ref) (todo : List Ref)
  | stamping (r : Ref)
  | returning (found : Option Ref)
  | serving (r : Ref)
  | running (r : Ref) (actions : List Action)
  | unlocking (r : Ref)
  | removing (r : Ref)
  | closing (r : Ref)
  | releasing (r : Ref)
  | marking (r : Ref)
  deriving DecidableEq

/-- The shared state. `descriptors` says which connection an open descriptor denotes, in
the order of `accept`; `origin` and `taken` are kept for reference only: the connection
an element was created for, and what the stages have been handed out. -/
structure Interleaving (cfg : InterleavingConfig) where
  pipeline : ServerPipeline
  mutex : Stage → Option Thread
  pc : Thread → Pc
  connections : NetworkConnections
  descriptors : Int → Option Nat
  accepted : Nat
  origin : Ref → Nat
  taken : List (Stage × Ref)

/-- What the surroundings decide: a timed lock, the outcome of a service and its text, and
the answers of `select` and `accept`. -/
structure Answer where
  inTime : Bool
  ok : Bool
  text : Bytes
  select : Server.SelectOutcome
  accepted : Int

/-- A step of one thread, or one element that the maintenance of a pipe removes. -/
inductive Tick where
  | thread (t : Thread) (answer : Answer)
  | maintenance (stage : Stage)

namespace Interleaving

variable {cfg : InterleavingConfig}

def start (cfg : InterleavingConfig) : Interleaving cfg where
  pipeline := .new
  mutex _ := none
  pc
    | .listener => .polling
    | .worker _ => .idle
  connections := .new cfg.maximumClients
  descriptors := Function.update (fun _ => none) cfg.listenerFd (some 0)
  accepted := 1
  origin _ := 0
  taken := []

variable (s : Interleaving cfg)

def goto (t : Thread) (pc : Pc) : Interleaving cfg :=
  { s with pc := Function.update s.pc t pc }

def stage (cfg : InterleavingConfig) : Thread → Stage
  | .listener => .completed
  | .worker i => (cfg.role i).stage

def rest (found : Bool) : Thread → Pc
  | .listener => if found then .idle else .polling
  | .worker _ => .idle

/-! ## The listener's own steps -/

/-- The descriptor that `accept` returns is one that is not open. -/
def accept (newFd : Int) : Option (Interleaving cfg) :=
  if newFd < 0 then some s
  else if (s.descriptors newFd).isSome then none
  else
    match addConnection newFd s.connections.networkConnections with
    | none => some { s with accepted := s.accepted + 1 }
    | some networkConnections =>
      some { s with
        connections := { s.connections with networkConnections }
        descriptors := Function.update s.descriptors newFd (some s.accepted)
        accepted := s.accepted + 1 }

def poll (answer : Answer) : Option (Interleaving cfg) :=
  let requested := ((s.connections.init cfg.listenerFd).getMaxFd cfg.listenerFd).2
  let selected := Server.connectSelect requested answer.select
  let s := { s with connections := selected.2 }
  if 0 < selected.1 ∧ s.connections.networkSockets.contains cfg.listenerFd then
    s.accept answer.accepted
  else some s

def announce (inTime : Bool) : Interleaving cfg :=
  let connections := s.connections.getActiveConnections
  let pending := connections.activeConnections
  if pending.isEmpty then { s with connections }
  else
    let published := s.pipeline.publishConnectN (inTime && (s.mutex .request).isNone) pending
    if published.1 then
      { s with
        pipeline := published.2
        connections := connections.clearPendingConnections
        origin := fun r =>
          if s.pipeline.created ≤ r then
            ((pending[r - s.pipeline.created]?.bind s.descriptors)).getD (s.origin r)
          else s.origin r }
    else { s with connections }

def setTable (networkConnections : List (Option NetworkConnection)) : Interleaving cfg :=
  { s with connections := { s.connections with networkConnections } }

def close (fd : Int) : Interleaving cfg :=
  if 0 ≤ fd then { s with descriptors := Function.update s.descriptors fd none } else s

/-! ## The steps of one thread -/

/-- The exchange is the moment at which an element is handed out. -/
def exchange (t : Thread) (r : Ref) (todo : List Ref) : Interleaving cfg :=
  let isLocked := (s.pipeline.elements r).isLocked
  let s := { s with pipeline := s.pipeline.modify r fun e => { e with isLocked := true } }
  if isLocked then s.goto t (.testing todo)
  else { s with taken := s.taken ++ [(stage cfg t, r)] }.goto t (.stamping r)

def perform (i : Nat) (r : Ref) (actions : List Action) :
    Option ServerPipelineElement → Interleaving cfg
  | none => s.goto (.worker i) (.running r (brokenOff (cfg.role i)))
  | some e =>
    { s with pipeline := s.pipeline.modify r fun _ => e }.goto (.worker i) (.running r actions)

def act (i : Nat) (r : Ref) (action : Action) (actions : List Action) :
    Option (Interleaving cfg) :=
  match action with
  | .push stage =>
    if (s.mutex stage).isSome then none
    else some ({ s with pipeline := s.pipeline.push stage r }.goto (.worker i) (.running r actions))
  | action =>
    some (s.perform i r actions (action.apply (cfg.objectId (.worker i)) (s.pipeline.elements r)))

def common (t : Thread) (answer : Answer) : Pc → Option (Interleaving cfg)
  | .idle =>
    if (s.pipeline.pipe (stage cfg t)).isEmpty then some (s.goto t (rest false t))
    else some (s.goto t .locking)
  | .locking =>
    if answer.inTime && (s.mutex (stage cfg t)).isNone then
      some ({ s with mutex := Function.update s.mutex (stage cfg t) (some t) }.goto t
        (.testing (s.pipeline.pipe (stage cfg t)).elements))
    else some (s.goto t (rest false t))
  | .testing [] => some (s.goto t (.returning none))
  | .testing (r :: todo) =>
    if (s.pipeline.elements r).completedPredicate (stage cfg t) then
      some (s.goto t (.testing todo))
    else some (s.goto t (.loading r todo))
  | .loading r todo =>
    if (s.pipeline.elements r).isLocked then some (s.goto t (.testing todo))
    else some (s.goto t (.exchanging r todo))
  | .exchanging r todo => some (s.exchange t r todo)
  | .stamping r =>
    some ({ s with pipeline := s.pipeline.modify r fun e =>
      { e with lockedById := cfg.objectId t } }.goto t (.returning (some r)))
  | .returning found =>
    some ({ s with mutex := Function.update s.mutex (stage cfg t) none }.goto t
      ((found.map Pc.serving).getD (rest false t)))
  | .running r [] =>
    some ({ s with pipeline := s.pipeline.modify r fun e => { e with lockedById := 0 } }.goto t
      (.unlocking r))
  | .unlocking r =>
    some ({ s with pipeline := s.pipeline.modify r fun e => { e with isLocked := false } }.goto t
      (rest true t))
  | _ => none

def listener (answer : Answer) : Option (Interleaving cfg) :=
  let slots := s.connections.networkConnections
  match s.pc .listener with
  | .polling => (s.poll answer).map fun s => s.goto .listener .announcing
  | .announcing => some ((s.announce answer.inTime).goto .listener .idle)
  | .serving r =>
    if (s.pipeline.elements r).isCloseConnectionRequired then some (s.goto .listener (.removing r))
    else some (s.goto .listener (.releasing r))
  | .removing r =>
    some ((s.setTable ((removeConnection (s.pipeline.elements r).clientFd slots).getD slots)).goto
      .listener (.closing r))
  | .closing r =>
    some ((s.close (s.pipeline.elements r).clientFd).goto .listener (.marking r))
  | .releasing r =>
    some ((s.setTable ((unlockConnection (s.pipeline.elements r).clientFd slots).getD slots)).goto
      .listener (.marking r))
  | .marking r =>
    some ({ s with pipeline := s.pipeline.modify r .markAsCompletedCompleted }.goto .listener
      (.running r []))
  | pc => s.common .listener answer pc

def worker (i : Nat) (answer : Answer) : Option (Interleaving cfg) :=
  match s.pc (.worker i) with
  | .serving r =>
    let actions :=
      if answer.ok then publishOk (cfg.role i) answer.text else publishNotOk (cfg.role i)
    some (s.goto (.worker i) (.running r actions))
  | .running r (action :: actions) => s.act i r action actions
  | pc => s.common (.worker i) answer pc

def maintain (stage : Stage) : Option (Interleaving cfg) :=
  if (s.mutex stage).isSome then none
  else
    match (s.pipeline.pipe stage).elements with
    | [] => none
    | r :: elements =>
      if (s.pipeline.elements r).completedPredicate stage then
        let pipe := Function.update s.pipeline.pipe stage ⟨elements, elements.isEmpty⟩
        some { s with pipeline := { s.pipeline with pipe } }
      else none

def step : Tick → Interleaving cfg → Option (Interleaving cfg)
  | .thread .listener answer, s => s.listener answer
  | .thread (.worker i) answer, s => s.worker i answer
  | .maintenance stage, s => s.maintain stage

def machine (cfg : InterleavingConfig) : Machine (Interleaving cfg) Tick where
  start := start cfg
  step := step

end Interleaving

end MultiplexServer

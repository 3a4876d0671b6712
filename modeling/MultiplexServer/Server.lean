import MultiplexServer.Library.Machine
import MultiplexServer.NetworkConnections
import MultiplexServer.Services

/-! The server as a machine whose steps are complete iterations: of a reader, a
datamodel worker, a writer, the listener, or the maintenance of the pipeline. A label
says who takes the iteration and what the operating system answers in it. -/

namespace MultiplexServer
open Strings NetworkReaderService NetworkWriterService DatamodelService NetworkConnections

structure ServerConfig where
  lib : JsonLibrary
  reader : ReaderConfig
  writer : WriterConfig
  maximumClients : Nat
  listenerFd : Int

/-- What has been done with an element, kept for reference only: on which descriptor,
with which answers, and in the end what has become of its connection. -/
inductive Visit where
  | read (fd setsockopt : Int) (events : List RecvEvent) (status : NetworkReaderStatus)
      (payload : Bytes)
  | compute (status : DatamodelStatus) (result : Bytes)
  | write (fd setsockopt : Int) (response : Bytes) (events : List SendEvent)
      (status : NetworkWriterStatus) (accepted : Bytes)
  | complete (taken : ServerPipelineElement) (connection : Option NetworkConnection)
      (isOpen : Bool)
  deriving DecidableEq

structure Server (cfg : ServerConfig) where
  pipeline : ServerPipeline
  connections : NetworkConnections
  openFds : List Int
  readers : Nat → Reader cfg.reader
  datamodels : Nat → Bytes
  log : Ref → List Visit

namespace Server

variable {cfg : ServerConfig}

def start (cfg : ServerConfig) : Server cfg where
  pipeline := .new
  connections := .new cfg.maximumClients
  openFds := [cfg.listenerFd]
  readers _ := default
  datamodels _ := []
  log _ := []

def note (s : Server cfg) (r : Ref) (visit : Visit) : Ref → List Visit :=
  Function.update s.log r (s.log r ++ [visit])

/-- One pass of `c_network_reader_service::service`. There is none to record while
`service_read` has not returned, or when an exception ends the process. -/
def serviceReader (s : Server cfg) (objectId : Nat) (acquired : Bool) (setsockopt : Int)
    (events : List RecvEvent) : Option (Server cfg) :=
  match s.pipeline.getNextRequest objectId acquired with
  | none => some s
  | some (r, p) =>
    match serviceRead cfg.reader (s.readers objectId) setsockopt events with
    | some (.ok (status, reader)) =>
      let published :=
        NetworkReaderService.publishToPipe status p objectId r reader.resultBuffer
      some { s with
        pipeline := published.leave r .markAsRequestFailed
        readers := Function.update s.readers objectId reader
        log := s.note r (.read (p.elements r).clientFd setsockopt events status
          reader.resultBuffer) }
    | _ => none

def serviceDatamodel (s : Server cfg) (objectId : Nat) (acquired : Bool) : Server cfg :=
  match s.pipeline.getNextDatamodel objectId acquired with
  | none => s
  | some (r, p) =>
    let (status, result) := DatamodelService.serviceDatamodel cfg.lib (s.datamodels objectId)
      (p.elements r).request
    let published := DatamodelService.publishToPipe status p objectId r result
    { s with
      pipeline := published.leave r .markAsDatamodelFailed
      datamodels := Function.update s.datamodels objectId result
      log := s.note r (.compute status result) }

def serviceWriter (s : Server cfg) (objectId : Nat) (acquired : Bool) (setsockopt : Int)
    (events : List SendEvent) : Option (Server cfg) :=
  match s.pipeline.getNextResponse objectId acquired with
  | none => some s
  | some (r, p) =>
    match serviceWrite cfg.writer (p.elements r).response setsockopt events with
    | some (status, accepted) =>
      let published := NetworkWriterService.publishToPipe status p objectId r
      some { s with
        pipeline := published.leave r .markAsResponseFailed
        log := s.note r (.write (p.elements r).clientFd setsockopt (p.elements r).response events
          status accepted) }
    | none => none

/-! ## The listener -/

/-- `select` reports some of the requested descriptors, none of them when the time is
up; a failing call leaves the set as it was. -/
inductive SelectOutcome where
  | ready (fds : List Int)
  | interrupted
  | error
  deriving DecidableEq, Repr

/-- What the operating system and the mutexes answer in one pass of the listener. -/
structure Polling where
  select : SelectOutcome
  accepted : Int
  publishAcquired : Bool
  exit : Bool
  acquired : List Bool

def connectSelect (t : NetworkConnections) : SelectOutcome → Int × NetworkConnections
  | .ready fds =>
    let networkSockets := t.networkSockets.filter (fds.contains ·)
    (networkSockets.length, { t with networkSockets })
  | .interrupted => (0, t)
  | .error => (-1, t)

theorem connectSelect_snd (t : NetworkConnections) (outcome : SelectOutcome) :
    (connectSelect t outcome).2 =
      { t with networkSockets := (connectSelect t outcome).2.networkSockets } := by
  cases outcome <;> rfl

def isNewClient (s : Server cfg) : Bool := s.connections.networkSockets.contains cfg.listenerFd

def closeFd (fd : Int) (openFds : List Int) : List Int :=
  if 0 ≤ fd then openFds.filter (· ≠ fd) else openFds

/-- The descriptor that `accept` returns is one that is not open. -/
def connectAccept (s : Server cfg) (newFd : Int) : Option (Server cfg) :=
  if newFd < 0 then some s
  else if newFd ∈ s.openFds then none
  else
    match addConnection newFd s.connections.networkConnections with
    | none => some { s with openFds := closeFd newFd (newFd :: s.openFds) }
    | some networkConnections =>
      some { s with
        openFds := newFd :: s.openFds
        connections := { s.connections with networkConnections } }

def acceptNewClient (s : Server cfg) (code newFd : Int) : Option (Server cfg) :=
  if 0 < code ∧ s.isNewClient then s.connectAccept newFd else some s

def publishActive (s : Server cfg) (acquired : Bool) : Server cfg :=
  let connections := s.connections.getActiveConnections
  if connections.activeConnections.isEmpty then { s with connections }
  else
    let published := s.pipeline.publishConnectN acquired connections.activeConnections
    { s with
      pipeline := published.2
      connections :=
        if published.1 then connections.clearPendingConnections else connections }

def updateNetworkConnection (s : Server cfg) (p : ServerPipeline) (r : Ref) : Server cfg :=
  let e := p.elements r
  let slots := s.connections.networkConnections
  let changed :=
    if e.isCloseConnectionRequired then removeConnection e.clientFd slots
    else unlockConnection e.clientFd slots
  let networkConnections := changed.getD slots
  let openFds :=
    if e.isCloseConnectionRequired then closeFd e.clientFd s.openFds else s.openFds
  { s with
    connections := { s.connections with networkConnections }
    openFds
    pipeline := (p.modify r .markAsCompletedCompleted).modify r .unlock
    log := s.note r (.complete (s.pipeline.elements r)
      ((table networkConnections).find? (·.clientFd = e.clientFd))
      (openFds.contains e.clientFd)) }

/-- The loop over the completed pipe, with the mutex outcome of each round; there is
no result while the outcomes do not reach its end. -/
def updateNetworkConnections (objectId : Nat) : List Bool → Server cfg → Option (Server cfg)
  | [], _ => none
  | acquired :: rest, s =>
    match s.pipeline.getNextCompleted objectId acquired with
    | none => some s
    | some (r, p) => updateNetworkConnections objectId rest (s.updateNetworkConnection p r)

def serviceListener (s : Server cfg) (objectId : Nat) (polling : Polling) :
    Option (Server cfg) := do
  let requested := ((s.connections.init cfg.listenerFd).getMaxFd cfg.listenerFd).2
  let selected := connectSelect requested polling.select
  let s := { s with connections := selected.2 }
  let s ← s.acceptNewClient selected.1 polling.accepted
  let s := s.publishActive polling.publishAcquired
  if polling.exit then some s else updateNetworkConnections objectId polling.acquired s

inductive Iteration where
  | reader (objectId : Nat) (acquired : Bool) (setsockopt : Int) (events : List RecvEvent)
  | datamodel (objectId : Nat) (acquired : Bool)
  | writer (objectId : Nat) (acquired : Bool) (setsockopt : Int) (events : List SendEvent)
  | listener (objectId : Nat) (polling : Polling)
  | maintenance (acquired : Stage → Bool)

def step : Iteration → Server cfg → Option (Server cfg)
  | .reader objectId acquired setsockopt events, s =>
    s.serviceReader objectId acquired setsockopt events
  | .datamodel objectId acquired, s => some (s.serviceDatamodel objectId acquired)
  | .writer objectId acquired setsockopt events, s =>
    s.serviceWriter objectId acquired setsockopt events
  | .listener objectId polling, s => s.serviceListener objectId polling
  | .maintenance acquired, s =>
    some { s with pipeline := s.pipeline.doPipelineMaintenance acquired }

def machine (cfg : ServerConfig) : Machine (Server cfg) Iteration where
  start := start cfg
  step := step

end Server

end MultiplexServer

import Mathlib.Data.List.Nodup
import MultiplexServer.Json

/-! `c_config_element` and `c_config::configure`: what a setting may be, and the table
of the settings the program declares. -/

namespace MultiplexServer.Configuration
open Json

/-- A stored setting: the type tag and the value behind the untyped pointer. -/
inductive ConfigValue where
  | string (value : String)
  | long (value : Int64)
  | double (value : Rat)
  | bool (value : Bool)
  deriving DecidableEq

inductive ConfigElementType where
  | string
  | long
  | double
  | bool
  deriving DecidableEq, Repr

def ConfigValue.elementType : ConfigValue → ConfigElementType
  | .string _ => .string
  | .long _ => .long
  | .double _ => .double
  | .bool _ => .bool

inductive Constraints where
  | string (options : List String)
  | long (least greatest : Int64)
  | double (least greatest : Rat)
  | bool
  deriving DecidableEq

def Constraints.elementType : Constraints → ConfigElementType
  | .string _ => .string
  | .long _ _ => .long
  | .double _ _ => .double
  | .bool => .bool

structure ConfigElement where
  description : String
  jsonPath : Path
  constraints : Constraints
  defaultValue : ConfigValue
  mandatory : Bool
  deriving DecidableEq

def ConfigElement.elementType (e : ConfigElement) : ConfigElementType := e.constraints.elementType

/-- The caller has matched the types, so the mixed pairings do not arise. -/
def ConfigElement.isValidValue (e : ConfigElement) : ConfigValue → Bool
  | .string value =>
    match e.constraints with
    | .string options => options.isEmpty || options.contains value
    | _ => false
  | .long value =>
    match e.constraints with
    | .long least greatest => least ≤ value && value ≤ greatest
    | _ => false
  | .double value =>
    match e.constraints with
    | .double least greatest => least ≤ value && value ≤ greatest
    | _ => false
  | .bool _ =>
    match e.constraints with
    | .bool => true
    | _ => false

def processTypePath : Path := ["process", "type"]
def networkConnectionPortPath : Path := ["network", "connection", "port"]
def networkConnectionClientsMaxPendingPath : Path :=
  ["network", "connection", "clients", "max", "pending"]
def networkConnectionBufferSizePath : Path := ["network", "connection", "buffer_size"]
def networkConnectionBindIpPath : Path := ["network", "connection", "bind_ip"]
def networkConnectionClientsMaxMessageSizePath : Path :=
  ["network", "connection", "clients", "max", "message_size"]
def networkConnectionClientsMaxConcurrentPath : Path :=
  ["network", "connection", "clients", "max", "concurrent"]
def networkConnectionReadTimeoutMsPath : Path := ["network", "connection", "read", "timeout"]
def networkConnectionReadRetryPath : Path := ["network", "connection", "read", "retry"]
def networkConnectionWriteTimeoutMsPath : Path := ["network", "connection", "write", "timeout"]
def networkConnectionWriteRetryPath : Path := ["network", "connection", "write", "retry"]
def protocolHeaderSizeLengthPath : Path := ["protocol", "header", "size", "length"]
def capacityDatamodelPoolSizePath : Path := ["capacity", "datamodel", "pool", "size"]
def capacityListenerPoolSizePath : Path := ["capacity", "listener", "pool", "size"]
def capacityReaderPoolSizePath : Path := ["capacity", "reader", "pool", "size"]
def capacityWriterPoolSizePath : Path := ["capacity", "writer", "pool", "size"]
def internalWaitServiceExitPath : Path := ["internal", "wait", "service", "exit"]
def internalTestSpeedSlowPath : Path := ["internal", "test", "speed", "slow"]
def adminUsernamePath : Path := ["admin", "username"]
def adminPasswordPath : Path := ["admin", "password"]
def diagnosticsLogFilenamePath : Path := ["diagnostics", "log", "filename"]
def diagnosticsLogOutputPath : Path := ["diagnostics", "log", "output"]
def diagnosticsLogTruncatePath : Path := ["diagnostics", "log", "truncate"]
def diagnosticsLogLevelPath : Path := ["diagnostics", "log", "level"]
def diagnosticsLogConsolePath : Path := ["diagnostics", "log", "console"]
def diagnosticsLogDumpConnectionsPath : Path := ["diagnostics", "log", "dump_connections"]

def longMax : Int64 := 9223372036854775807

def stringNoConstraints : Constraints := .string []

def configure : List ConfigElement :=
  [⟨"type of process to run", processTypePath, .string ["server", "client"], .string "", true⟩,
   ⟨"admin account username", adminUsernamePath, stringNoConstraints, .string "admin", true⟩,
   ⟨"admin account password", adminPasswordPath, stringNoConstraints, .string "password", true⟩,
   ⟨"capacity datamodel pool size", capacityDatamodelPoolSizePath, .long 1 250, .long 2, true⟩,
   ⟨"capacity listener pool size", capacityListenerPoolSizePath, .long 1 1, .long 1, true⟩,
   ⟨"capacity reader pool size", capacityReaderPoolSizePath, .long 1 250, .long 2, true⟩,
   ⟨"capacity writer pool size", capacityWriterPoolSizePath, .long 1 250, .long 2, true⟩,
   ⟨"internal wait service exit", internalWaitServiceExitPath, .long 25 100000, .long 1000, true⟩,
   ⟨"internal test speed slow", internalTestSpeedSlowPath, .bool, .bool true, true⟩,
   ⟨"diagnostics log to console", diagnosticsLogConsolePath, .bool, .bool true, true⟩,
   ⟨"diagnostics log to dump connections", diagnosticsLogDumpConnectionsPath, .bool, .bool true,
     true⟩,
   ⟨"diagnostics log output", diagnosticsLogOutputPath, .bool, .bool true, true⟩,
   ⟨"diagnostics log truncate", diagnosticsLogTruncatePath, .bool, .bool true, true⟩,
   ⟨"diagnostics log filename", diagnosticsLogFilenamePath, stringNoConstraints,
     .string "/tmp/battleship-log.txt", true⟩,
   ⟨"diagnostics log level", diagnosticsLogLevelPath,
     .string ["dev", "trace", "debug", "info", "warn", "error", "fatal"], .string "info", true⟩,
   ⟨"network connection buffer size", networkConnectionBufferSizePath, .long 512 102400,
     .long 1024, true⟩,
   ⟨"network connection bind ip", networkConnectionBindIpPath, stringNoConstraints, .string "",
     true⟩,
   ⟨"network connection clients max concurrent", networkConnectionClientsMaxConcurrentPath,
     .long 1 10000, .long 100, true⟩,
   ⟨"network connection clients max message size bytes",
     networkConnectionClientsMaxMessageSizePath, .long 15 102400, .long 10000, true⟩,
   ⟨"network connection clients max pending", networkConnectionClientsMaxPendingPath,
     .long 1 1024, .long 25, true⟩,
   ⟨"network connection port", networkConnectionPortPath, .long 1 longMax, .long 9999, true⟩,
   ⟨"network connection read retry", networkConnectionReadRetryPath, .long 0 1000, .long 19,
     true⟩,
   ⟨"network connection read timeout ms", networkConnectionReadTimeoutMsPath, .long 1 600000,
     .long 1000, true⟩,
   ⟨"network connection write retry", networkConnectionWriteRetryPath, .long 0 1000, .long 10,
     true⟩,
   ⟨"network connection write timeout ms", networkConnectionWriteTimeoutMsPath, .long 1 600000,
     .long 1000, true⟩,
   ⟨"protocol header size length", protocolHeaderSizeLengthPath, .long 1 1024, .long 15, true⟩]

theorem configure_paths_nodup : (configure.map ConfigElement.jsonPath).Nodup := by decide

theorem configure_path_unique {e d : ConfigElement} (he : e ∈ configure) (hd : d ∈ configure)
    (h : e.jsonPath = d.jsonPath) : e = d :=
  List.inj_on_of_nodup_map configure_paths_nodup he hd h

/-- Every default has the declared type and obeys its own constraints, except that
of the process type. -/
theorem configure_defaults_valid :
    ∀ e ∈ configure, e.isValidValue e.defaultValue = true ∨ e.jsonPath = processTypePath := by
  decide

end MultiplexServer.Configuration

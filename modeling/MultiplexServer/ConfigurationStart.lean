import MultiplexServer.ConfigurationExtraction

/-! The `c_config` constructor and `c_process_factory`: what starting needs of the
settings, against what `load_config` has checked. The loader looks at the settings
that are present and never at those that are missing. -/

namespace MultiplexServer.Configuration
open Json

inductive TypeProcess where
  | none
  | server
  deriving DecidableEq, Repr

/-- An assertion that stops the program, or a pointer read at another type than it
was stored with. -/
inductive StartFailure where
  | assertion (message : String)
  | wrongType
  deriving DecidableEq, Repr

def find (settings : Settings) (key : Path) (message : String) : Except StartFailure ConfigValue :=
  match settings.lookup key with
  | none => .error (.assertion message)
  | some value => .ok value

def getProcessType (settings : Settings) (key : Path) : Except StartFailure TypeProcess := do
  match ← find settings key "TYPE_PROCESS extract - cannot get here" with
  | .string value => if value = "server" then .ok .server else .ok .none
  | _ => .error .wrongType

def extractString (settings : Settings) (key : Path) : Except StartFailure String := do
  match ← find settings key "extract - cannot get here" with
  | .string data => .ok data
  | _ => .error .wrongType

def extractInt64 (settings : Settings) (key : Path) : Except StartFailure Int64 := do
  match ← find settings key "extract - cannot get here" with
  | .long data => .ok data
  | _ => .error .wrongType

def extractBool (settings : Settings) (key : Path) : Except StartFailure Bool := do
  match ← find settings key "extract - cannot get here" with
  | .bool data => .ok data
  | _ => .error .wrongType

structure Config where
  processType : TypeProcess
  networkConnectionPort : Int64
  networkConnectionClientsMaxPending : Int64
  networkConnectionBufferSize : Int64
  networkConnectionClientsMaxMessageSize : Int64
  networkConnectionClientsMaxConcurrent : Int64
  networkConnectionReadTimeoutMs : Int64
  networkConnectionReadRetry : Int64
  networkConnectionWriteTimeoutMs : Int64
  networkConnectionWriteRetry : Int64
  protocolHeaderSizeLength : Int64
  capacityDatamodelPoolSize : Int64
  capacityListenerPoolSize : Int64
  capacityReaderPoolSize : Int64
  capacityWriterPoolSize : Int64
  internalWaitServiceExit : Int64
  adminUsername : String
  adminPassword : String
  diagnosticsLogFilename : String
  diagnosticsLogLevel : String
  networkConnectionBindIp : String
  diagnosticsLogConsole : Bool
  diagnosticsLogDumpConnections : Bool
  diagnosticsLogOutput : Bool
  diagnosticsLogTruncate : Bool
  internalTestSpeedSlow : Bool

def construct (settings : Settings) : Except StartFailure Config := do
  let processType ← getProcessType settings processTypePath
  let networkConnectionPort ← extractInt64 settings networkConnectionPortPath
  let networkConnectionClientsMaxPending ←
    extractInt64 settings networkConnectionClientsMaxPendingPath
  let networkConnectionBufferSize ← extractInt64 settings networkConnectionBufferSizePath
  let networkConnectionClientsMaxMessageSize ←
    extractInt64 settings networkConnectionClientsMaxMessageSizePath
  let networkConnectionClientsMaxConcurrent ←
    extractInt64 settings networkConnectionClientsMaxConcurrentPath
  let networkConnectionReadTimeoutMs ← extractInt64 settings networkConnectionReadTimeoutMsPath
  let networkConnectionReadRetry ← extractInt64 settings networkConnectionReadRetryPath
  let networkConnectionWriteTimeoutMs ← extractInt64 settings networkConnectionWriteTimeoutMsPath
  let networkConnectionWriteRetry ← extractInt64 settings networkConnectionWriteRetryPath
  let protocolHeaderSizeLength ← extractInt64 settings protocolHeaderSizeLengthPath
  let capacityDatamodelPoolSize ← extractInt64 settings capacityDatamodelPoolSizePath
  let capacityListenerPoolSize ← extractInt64 settings capacityListenerPoolSizePath
  let capacityReaderPoolSize ← extractInt64 settings capacityReaderPoolSizePath
  let capacityWriterPoolSize ← extractInt64 settings capacityWriterPoolSizePath
  let internalWaitServiceExit ← extractInt64 settings internalWaitServiceExitPath
  let adminUsername ← extractString settings adminUsernamePath
  let adminPassword ← extractString settings adminPasswordPath
  let diagnosticsLogFilename ← extractString settings diagnosticsLogFilenamePath
  let diagnosticsLogLevel ← extractString settings diagnosticsLogLevelPath
  let networkConnectionBindIp ← extractString settings networkConnectionBindIpPath
  let diagnosticsLogConsole ← extractBool settings diagnosticsLogConsolePath
  let diagnosticsLogDumpConnections ← extractBool settings diagnosticsLogDumpConnectionsPath
  let diagnosticsLogOutput ← extractBool settings diagnosticsLogOutputPath
  let diagnosticsLogTruncate ← extractBool settings diagnosticsLogTruncatePath
  let internalTestSpeedSlow ← extractBool settings internalTestSpeedSlowPath
  return {
    processType, networkConnectionPort, networkConnectionClientsMaxPending,
    networkConnectionBufferSize, networkConnectionClientsMaxMessageSize,
    networkConnectionClientsMaxConcurrent, networkConnectionReadTimeoutMs,
    networkConnectionReadRetry, networkConnectionWriteTimeoutMs, networkConnectionWriteRetry,
    protocolHeaderSizeLength, capacityDatamodelPoolSize, capacityListenerPoolSize,
    capacityReaderPoolSize, capacityWriterPoolSize, internalWaitServiceExit, adminUsername,
    adminPassword, diagnosticsLogFilename, diagnosticsLogLevel, networkConnectionBindIp,
    diagnosticsLogConsole, diagnosticsLogDumpConnections, diagnosticsLogOutput,
    diagnosticsLogTruncate, internalTestSpeedSlow }

inductive Process where
  | server
  deriving DecidableEq, Repr

def getProcess : TypeProcess → Except StartFailure Process
  | .server => .ok .server
  | .none => .error (.assertion
      "TYPE_PROCESS allocation should not get here as all enums handled above")

def start (settings : Settings) : Except StartFailure (Config × Process) := do
  let config ← construct settings
  let process ← getProcess config.processType
  return (config, process)

theorem bind_eq_ok {ε α β : Type} {x : Except ε α} {f : α → Except ε β} {b : β} :
    (x >>= f) = .ok b ↔ ∃ a, x = .ok a ∧ f a = .ok b := by
  cases x with
  | error e =>
    constructor
    · intro h
      cases h
    · rintro ⟨a, ha, -⟩
      cases ha
  | ok a =>
    constructor
    · exact fun h => ⟨a, rfl, h⟩
    · rintro ⟨_, ⟨⟩, h⟩
      exact h

theorem exists_ok_bind {ε α β : Type} {x : Except ε α} {f : α → Except ε β} :
    (∃ b, (x >>= f) = .ok b) ↔ ∃ a, x = .ok a ∧ ∃ b, f a = .ok b := by
  simp only [bind_eq_ok, ← exists_and_left]
  exact exists_comm

/-! ## Every lookup of the constructor is a declared one -/

def Typed (settings : Settings) : Prop :=
  ∀ e ∈ configure, ∀ value, settings.lookup e.jsonPath = some value →
    value.elementType = e.elementType

def Declared (path : Path) (elementType : ConfigElementType) : Prop :=
  ∃ e ∈ configure, e.jsonPath = path ∧ e.elementType = elementType

instance (path : Path) (elementType : ConfigElementType) : Decidable (Declared path elementType) :=
  inferInstanceAs (Decidable (∃ e ∈ configure, _))

variable {settings : Settings}

theorem Typed.elementType (h : Typed settings) {key : Path} {elementType : ConfigElementType}
    (hkey : Declared key elementType) {value : ConfigValue}
    (hvalue : settings.lookup key = some value) : value.elementType = elementType := by
  obtain ⟨e, he, rfl, rfl⟩ := hkey
  exact h e he value hvalue

theorem Typed.find_ok_iff (h : Typed settings) {α : Type} {key : Path}
    {elementType : ConfigElementType} (hkey : Declared key elementType) {message : String}
    {f : ConfigValue → Except StartFailure α}
    (hf : ∀ value, value.elementType = elementType → ∃ data, f value = .ok data) :
    (∃ data, (find settings key message >>= f) = .ok data) ↔ (settings.lookup key).isSome := by
  cases hvalue : settings.lookup key with
  | none => simp [find, hvalue, bind, Except.bind]
  | some value =>
    have hdata := hf value (h.elementType hkey hvalue)
    simpa [find, hvalue, bind, Except.bind] using hdata

theorem extractString_ok_iff (h : Typed settings) {key : Path} (hkey : Declared key .string) :
    (∃ data, extractString settings key = .ok data) ↔ (settings.lookup key).isSome := by
  refine h.find_ok_iff hkey fun value htype => ?_
  cases value with
  | string data => exact ⟨data, rfl⟩
  | long | double | bool => cases htype

theorem extractInt64_ok_iff (h : Typed settings) {key : Path} (hkey : Declared key .long) :
    (∃ data, extractInt64 settings key = .ok data) ↔ (settings.lookup key).isSome := by
  refine h.find_ok_iff hkey fun value htype => ?_
  cases value with
  | long data => exact ⟨data, rfl⟩
  | string | double | bool => cases htype

theorem extractBool_ok_iff (h : Typed settings) {key : Path} (hkey : Declared key .bool) :
    (∃ data, extractBool settings key = .ok data) ↔ (settings.lookup key).isSome := by
  refine h.find_ok_iff hkey fun value htype => ?_
  cases value with
  | bool data => exact ⟨data, rfl⟩
  | string | long | double => cases htype

theorem getProcessType_server_iff (key : Path) :
    getProcessType settings key = .ok .server ↔
      settings.lookup key = some (.string "server") := by
  cases hvalue : settings.lookup key with
  | none => simp [getProcessType, find, hvalue, bind, Except.bind]
  | some value =>
    cases value with
    | string data =>
      by_cases hdata : data = "server" <;>
        simp [getProcessType, find, hvalue, bind, Except.bind, hdata]
    | long | double | bool => simp [getProcessType, find, hvalue, bind, Except.bind]

theorem getProcess_ok_iff (type : TypeProcess) :
    (∃ process, getProcess type = .ok process) ↔ type = .server := by
  cases type with
  | none => simp [getProcess]
  | server => exact iff_of_true ⟨.server, rfl⟩ rfl

def constructorPaths : List Path :=
  [networkConnectionPortPath, networkConnectionClientsMaxPendingPath,
   networkConnectionBufferSizePath, networkConnectionClientsMaxMessageSizePath,
   networkConnectionClientsMaxConcurrentPath, networkConnectionReadTimeoutMsPath,
   networkConnectionReadRetryPath, networkConnectionWriteTimeoutMsPath,
   networkConnectionWriteRetryPath, protocolHeaderSizeLengthPath, capacityDatamodelPoolSizePath,
   capacityListenerPoolSizePath, capacityReaderPoolSizePath, capacityWriterPoolSizePath,
   internalWaitServiceExitPath, adminUsernamePath, adminPasswordPath, diagnosticsLogFilenamePath,
   diagnosticsLogLevelPath, networkConnectionBindIpPath, diagnosticsLogConsolePath,
   diagnosticsLogDumpConnectionsPath, diagnosticsLogOutputPath, diagnosticsLogTruncatePath,
   internalTestSpeedSlowPath]

theorem constructorPaths_perm :
    (processTypePath :: constructorPaths).Perm (configure.map ConfigElement.jsonPath) := by
  decide

theorem start_ok_iff_constructorPaths (h : Typed settings) :
    (∃ started, start settings = .ok started) ↔
      settings.lookup processTypePath = some (.string "server") ∧
        ∀ path ∈ constructorPaths, (settings.lookup path).isSome := by
  simp only [start, construct, bind_assoc, pure_bind, exists_ok_bind]
  simp (disch := decide) only [pure, Except.pure, Except.ok.injEq, exists_eq', and_true,
    exists_and_right, extractString_ok_iff h, extractInt64_ok_iff h, extractBool_ok_iff h,
    getProcess_ok_iff]
  simp only [constructorPaths, List.forall_mem_cons, List.not_mem_nil, false_imp_iff,
    implies_true, and_true, ← getProcessType_server_iff, ← and_assoc, exists_eq_right]

theorem start_ok_iff (h : Typed settings) :
    (∃ started, start settings = .ok started) ↔
      settings.lookup processTypePath = some (.string "server") ∧
        ∀ e ∈ configure, (settings.lookup e.jsonPath).isSome := by
  have hpaths : (∀ e ∈ configure, (settings.lookup e.jsonPath).isSome) ↔
      ∀ path ∈ processTypePath :: constructorPaths, (settings.lookup path).isSome := by
    simp only [constructorPaths_perm.mem_iff, List.forall_mem_map]
  rw [start_ok_iff_constructorPaths h, hpaths, List.forall_mem_cons]
  constructor
  · rintro ⟨htype, hothers⟩
    exact ⟨htype, by rw [htype]; rfl, hothers⟩
  · rintro ⟨htype, -, hothers⟩
    exact ⟨htype, hothers⟩

/-! ## What a loaded document guarantees -/

/-- The document has a leaf under every declared path and is that of a server. -/
def Complete (j : Json) : Prop :=
  (∀ e ∈ configure, e.jsonPath ∈ j.paths) ∧ (processTypePath, .string "server") ∈ j.allLeaves

theorem mem_of_lookup {path : Path} {value : ConfigValue}
    (h : settings.lookup path = some value) : (path, value) ∈ settings := by
  obtain ⟨before, after, rfl, -⟩ := List.lookup_eq_some_iff.mp h
  simp

theorem lookup_iff_mem (h : (settings.map Prod.fst).Nodup) (path : Path) (value : ConfigValue) :
    settings.lookup path = some value ↔ (path, value) ∈ settings := by
  refine ⟨mem_of_lookup, fun hmem => ?_⟩
  have hsome : (settings.lookup path).isSome := List.lookup_isSome_iff.mpr ⟨_, hmem, by simp⟩
  obtain ⟨other, hother⟩ := Option.isSome_iff_exists.mp hsome
  have hsame := List.inj_on_of_nodup_map h (mem_of_lookup hother) hmem rfl
  simp only [Prod.mk.injEq, true_and] at hsame
  rw [hother, hsame]

theorem lookup_isSome_iff (path : Path) :
    (settings.lookup path).isSome ↔ path ∈ settings.map Prod.fst := by
  rw [List.lookup_isSome_iff, List.mem_map]
  constructor
  · rintro ⟨setting, hsetting, hkey⟩
    exact ⟨setting, hsetting, (eq_of_beq hkey).symm⟩
  · rintro ⟨setting, hsetting, rfl⟩
    exact ⟨setting, hsetting, beq_self_eq_true _⟩

theorem isConfiguredAndValid_elementType {path : Path} {value : ConfigValue}
    (h : isConfiguredAndValid configure path value.elementType value = true)
    {e : ConfigElement} (he : e ∈ configure) (hpath : e.jsonPath = path) :
    value.elementType = e.elementType := by
  unfold isConfiguredAndValid at h
  split at h
  · cases h
  · rename_i d hd
    have hdeclared := List.find?_some hd
    simp only [decide_eq_true_eq] at hdeclared
    have hsame := configure_path_unique (List.mem_of_find?_eq_some hd) he
      (hdeclared.1.trans hpath.symm)
    rw [← hsame, hdeclared.2]

theorem typed_of_valid (h : settings.all fun setting =>
    isConfiguredAndValid configure setting.1 setting.2.elementType setting.2) :
    Typed settings := by
  intro e he value hvalue
  have hvalid := List.all_eq_true.mp h _ (mem_of_lookup hvalue)
  exact isConfiguredAndValid_elementType hvalid he rfl

section LoadConfig

variable {argKey : String} {arguments : List (String × String)}
  {file : String → Option (List UInt8)} {parse : List UInt8 → Option Json} {j : Json}

theorem loadConfig_eq_true (hfile : parsedFile argKey arguments file parse = some j)
    (hload : loadConfig argKey arguments file parse = (true, settings)) :
    Typed settings ∧ (settings.map Prod.fst).Nodup ∧ List.Forall₂ Stores j.allLeaves settings := by
  simp only [loadConfig, hfile] at hload
  split_ifs at hload with hextract
  swap
  · cases hload
  simp only [Prod.mk.injEq] at hload
  obtain ⟨hvalid, hsettings⟩ := hload
  rw [extractConfigurationFromJson, extractItems_eq] at *
  obtain ⟨added, hadded, hstores, hnodup⟩ := extractAll_eq_true hextract
  rw [hsettings] at hadded hnodup hvalid
  rw [List.nil_append] at hadded
  subst hadded
  exact ⟨typed_of_valid hvalid, hnodup List.nodup_nil, hstores⟩

/-- A loaded document starts the program exactly when it is complete. -/
theorem loadConfig_startable_iff (hfile : parsedFile argKey arguments file parse = some j)
    (hload : loadConfig argKey arguments file parse = (true, settings)) :
    (∃ started, start settings = .ok started) ↔ Complete j := by
  obtain ⟨htyped, hnodup, hstores⟩ := loadConfig_eq_true hfile hload
  have hpaths : settings.map Prod.fst = j.paths := stores_paths hstores
  rw [start_ok_iff htyped, lookup_iff_mem hnodup, stores_string hstores, Complete, and_comm]
  simp only [lookup_isSome_iff, hpaths]

end LoadConfig

/-- The configuration shipped with the server, for either process type. -/
def shippedDocument (processType : String) : Json :=
  .object [
    ("admin", .object [("password", .string "password"), ("username", .string "cc")]),
    ("capacity", .object [
      ("datamodel", .object [("pool", .object [("size", .unsigned 20)])]),
      ("listener", .object [("pool", .object [("size", .unsigned 1)])]),
      ("reader", .object [("pool", .object [("size", .unsigned 20)])]),
      ("writer", .object [("pool", .object [("size", .unsigned 20)])])]),
    ("diagnostics", .object [("log", .object [
      ("console", .boolean true), ("dump_connections", .boolean false),
      ("filename", .string "/tmp/server.log"), ("level", .string "info"),
      ("output", .boolean true), ("truncate", .boolean true)])]),
    ("internal", .object [
      ("test", .object [("speed", .object [("slow", .boolean false)])]),
      ("wait", .object [("service", .object [("exit", .unsigned 1000)])])]),
    ("network", .object [("connection", .object [
      ("bind_ip", .string "127.0.0.1"), ("buffer_size", .unsigned 1024),
      ("clients", .object [("max", .object [
        ("concurrent", .unsigned 20), ("message_size", .unsigned 10000),
        ("pending", .unsigned 1)])]),
      ("port", .unsigned 9999),
      ("read", .object [("retry", .unsigned 2), ("timeout", .unsigned 250)]),
      ("write", .object [("retry", .unsigned 10), ("timeout", .unsigned 250)])])]),
    ("process", .object [("type", .string processType)]),
    ("protocol", .object [("header", .object [("size", .object [("length", .unsigned 15)])])])]

def loadDocument (j : Json) : Bool × Settings :=
  loadConfig "-f" [("-f", "conf.json")] (fun _ => some []) fun _ => some j

theorem loadConfig_startable_shipped :
    (∃ started, start (loadDocument (shippedDocument "server")).2 = .ok started) :=
  (loadConfig_startable_iff rfl (show loadDocument _ = (true, _) from
    Prod.ext (by decide) rfl)).mpr ⟨by decide, List.mem_iff_getElem?.mpr ⟨24, rfl⟩⟩

/-- The empty document is accepted and the constructor's first lookup fails; the
complete document of a client is accepted and the factory has no process for it. -/
theorem loadConfig_accepts_unstartable :
    loadDocument (.object []) = (true, []) ∧
      start [] = .error (.assertion "TYPE_PROCESS extract - cannot get here") ∧
      (loadDocument (shippedDocument "client")).1 = true ∧
      start (loadDocument (shippedDocument "client")).2 = .error (.assertion
        "TYPE_PROCESS allocation should not get here as all enums handled above") :=
  ⟨rfl, rfl, by decide, rfl⟩

end MultiplexServer.Configuration

import MultiplexServer.ConfigurationAccessors
import MultiplexServer.ProcessInvariant
import MultiplexServer.ServerDescriptors
import MultiplexServer.Startup

/-! The process and the server that an accepted configuration makes: what the thread
factories, the services and the logger read from it through its accessors. -/

namespace MultiplexServer.Configuration
open Json NetworkReaderService NetworkWriterService NetworkConnections

structure Bounded (c : Config) : Prop where
  bufferSize : 512 ≤ (Accessors.networkConnectionBufferSize c).toInt ∧
    (Accessors.networkConnectionBufferSize c).toInt ≤ 102400
  maxConcurrent : 1 ≤ (Accessors.networkConnectionClientsMaxConcurrent c).toInt ∧
    (Accessors.networkConnectionClientsMaxConcurrent c).toInt ≤ 10000
  maxMessageSize : 15 ≤ c.networkConnectionClientsMaxMessageSize.toInt ∧
    c.networkConnectionClientsMaxMessageSize.toInt ≤ 102400
  readRetry : 0 ≤ (Accessors.networkConnectionReadRetry c).toInt ∧
    (Accessors.networkConnectionReadRetry c).toInt ≤ 1000
  writeRetry : 0 ≤ (Accessors.networkConnectionWriteRetry c).toInt ∧
    (Accessors.networkConnectionWriteRetry c).toInt ≤ 1000
  headerSizeLength : 1 ≤ (Accessors.protocolHeaderSizeLength c).toInt ∧
    (Accessors.protocolHeaderSizeLength c).toInt ≤ 1024
  datamodelPoolSize : 1 ≤ (Accessors.capacityDatamodelPoolSize c).toInt ∧
    (Accessors.capacityDatamodelPoolSize c).toInt ≤ 250
  readerPoolSize : 1 ≤ (Accessors.capacityReaderPoolSize c).toInt ∧
    (Accessors.capacityReaderPoolSize c).toInt ≤ 250
  writerPoolSize : 1 ≤ (Accessors.capacityWriterPoolSize c).toInt ∧
    (Accessors.capacityWriterPoolSize c).toInt ≤ 250
  waitServiceExit : 25 ≤ (Accessors.internalWaitServiceExit c).toInt ∧
    (Accessors.internalWaitServiceExit c).toInt ≤ 100000

/-- How many threads `generate_n` makes. -/
def poolSize (size : Int32) : UInt64 := .ofNat size.toInt.toNat

theorem poolSize_toNat {size : Int32} (h : 1 ≤ size.toInt ∧ size.toInt ≤ 250) :
    ((poolSize size).toNat : Int) = size.toInt := by
  have hlt : size.toInt.toNat < 2 ^ 64 := by omega
  have hsize : (poolSize size).toNat = size.toInt.toNat := UInt64.toNat_ofNat_of_lt hlt
  omega

theorem poolSize_pos {size : Int32} (h : 1 ≤ size.toInt ∧ size.toInt ≤ 250) :
    0 < (poolSize size).toNat := by
  have hsize := poolSize_toNat h
  omega

def processConfig (c : Config) (h : Bounded c) : ProcessConfig where
  readerPoolSize := poolSize (Accessors.capacityReaderPoolSize c)
  datamodelPoolSize := poolSize (Accessors.capacityDatamodelPoolSize c)
  writerPoolSize := poolSize (Accessors.capacityWriterPoolSize c)
  readers := poolSize_pos h.readerPoolSize
  datamodels := poolSize_pos h.datamodelPoolSize
  writers := poolSize_pos h.writerPoolSize
  waitServiceExit := (Accessors.internalWaitServiceExit c).toInt
  bindIp := c.networkConnectionBindIp.toUTF8.data.toList
  log := ⟨true, c.diagnosticsLogConsole, c.diagnosticsLogOutput, c.diagnosticsLogLevel⟩

def readerConfig (c : Config) (h : Bounded c) : ReaderConfig where
  readRetry := (Accessors.networkConnectionReadRetry c).toInt.toNat
  protocolHeaderSizeLength := (Accessors.protocolHeaderSizeLength c).toInt.toNat
  clientsMaxMessageSize := c.networkConnectionClientsMaxMessageSize.toInt.toNat
  bufferSize := (Accessors.networkConnectionBufferSize c).toInt.toNat
  readRetry_le := by have := h.readRetry; omega
  header_pos := by have := h.headerSizeLength; omega
  header_le := by have := h.headerSizeLength; omega
  maxMessageSize_ge := by have := h.maxMessageSize; omega
  maxMessageSize_le := by have := h.maxMessageSize; omega
  bufferSize_ge := by have := h.bufferSize; omega
  bufferSize_le := by have := h.bufferSize; omega

def writerConfig (c : Config) (h : Bounded c) : WriterConfig where
  writeRetry := (Accessors.networkConnectionWriteRetry c).toInt.toNat
  bufferSize := (Accessors.networkConnectionBufferSize c).toInt.toNat
  writeRetry_le := by have := h.writeRetry; unfold Strings.intMax; omega
  bufferSize_ge := by have := h.bufferSize; omega
  bufferSize_le := by have := h.bufferSize; omega

def serverConfig (c : Config) (h : Bounded c) (lib : JsonLibrary) (listenerFd : Int) :
    ServerConfig where
  lib := lib
  reader := readerConfig c h
  writer := writerConfig c h
  maximumClients := (Accessors.networkConnectionClientsMaxConcurrent c).toInt.toNat
  listenerFd := listenerFd

/-! ## What the loader has checked -/

theorem construct_maxMessageSize {settings : Settings} {c : Config}
    (h : construct settings = .ok c) :
    settings.lookup networkConnectionClientsMaxMessageSizePath =
      some (.long c.networkConnectionClientsMaxMessageSize) := by
  simp only [construct, bind_eq_ok, pure, Except.pure, Except.ok.injEq] at h
  obtain ⟨_, -, _, -, _, -, _, -, size, hsize, h⟩ := h
  obtain ⟨_, -, _, -, _, -, _, -, _, -, _, -, _, -, _, -, _, -, _, -, h⟩ := h
  obtain ⟨_, -, _, -, _, -, _, -, _, -, _, -, _, -, _, -, _, -, _, -, _, -, rfl⟩ := h
  exact extractInt64_eq_ok hsize

section Loaded

variable {settings : Settings} (hvalid : settings.all fun setting =>
  isConfiguredAndValid configure setting.1 setting.2.elementType setting.2)

include hvalid

theorem within_declared {e : ConfigElement} (he : e ∈ configure) {least greatest : Int64}
    (hc : e.constraints = .long least greatest) {value : Int64}
    (h : settings.lookup e.jsonPath = some (.long value)) :
    least.toInt ≤ value.toInt ∧ value.toInt ≤ greatest.toInt := by
  have hsetting := List.all_eq_true.mp hvalid _ (mem_of_lookup h)
  obtain ⟨d, hd, hpath, -, hrange⟩ := (isConfiguredAndValid_iff _ _ _).mp hsetting
  obtain rfl := configure_path_unique hd he hpath
  exact (long_valid_iff hc).mp hrange

variable {c : Config} (hconstruct : construct settings = .ok c)

include hconstruct

theorem accessor_within {e : ConfigElement} (he : e ∈ configure) {least greatest : Int64}
    (hc : e.constraints = .long least greatest) {accessor : Config → Int32}
    (ha : (e.jsonPath, accessor) ∈ Accessors.narrowing)
    (hlow : -2147483648 ≤ least.toInt) (hhigh : greatest.toInt ≤ 2147483647) :
    least.toInt ≤ (accessor c).toInt ∧ (accessor c).toInt ≤ greatest.toInt := by
  obtain ⟨value, hvalue, hnarrow⟩ := accessor_eq_narrow hconstruct _ ha
  have hwithin := within_declared hvalid he hc hvalue
  have hsame : (narrow value).toInt = value.toInt := narrow_toInt (by omega) (by omega)
  change accessor c = narrow value at hnarrow
  rw [hnarrow, hsame]
  exact hwithin

theorem bounded_of_loaded : Bounded c where
  bufferSize := accessor_within hvalid hconstruct (e := configure[15]) (List.getElem_mem _) rfl
    (by simp [Accessors.narrowing, configure]) (by decide) (by decide)
  maxConcurrent := accessor_within hvalid hconstruct (e := configure[17]) (List.getElem_mem _) rfl
    (by simp [Accessors.narrowing, configure]) (by decide) (by decide)
  maxMessageSize := within_declared hvalid (e := configure[18]) (List.getElem_mem _) rfl
    (construct_maxMessageSize hconstruct)
  readRetry := accessor_within hvalid hconstruct (e := configure[21]) (List.getElem_mem _) rfl
    (by simp [Accessors.narrowing, configure]) (by decide) (by decide)
  writeRetry := accessor_within hvalid hconstruct (e := configure[23]) (List.getElem_mem _) rfl
    (by simp [Accessors.narrowing, configure]) (by decide) (by decide)
  headerSizeLength := accessor_within hvalid hconstruct (e := configure[25])
    (List.getElem_mem _) rfl (by simp [Accessors.narrowing, configure]) (by decide) (by decide)
  datamodelPoolSize := accessor_within hvalid hconstruct (e := configure[3])
    (List.getElem_mem _) rfl (by simp [Accessors.narrowing, configure]) (by decide) (by decide)
  readerPoolSize := accessor_within hvalid hconstruct (e := configure[5])
    (List.getElem_mem _) rfl (by simp [Accessors.narrowing, configure]) (by decide) (by decide)
  writerPoolSize := accessor_within hvalid hconstruct (e := configure[6])
    (List.getElem_mem _) rfl (by simp [Accessors.narrowing, configure]) (by decide) (by decide)
  waitServiceExit := accessor_within hvalid hconstruct (e := configure[7])
    (List.getElem_mem _) rfl (by simp [Accessors.narrowing, configure]) (by decide) (by decide)

end Loaded

variable {file : String → Option (List UInt8)} {parse : List UInt8 → Option Json}
  {argv : List String} {config : Config} {process : Process}

theorem loaded_of_runs (h : main file parse argv = .ok (.runs config process)) :
    ∃ settings, (settings.all fun setting =>
      isConfiguredAndValid configure setting.1 setting.2.elementType setting.2) ∧
        construct settings = .ok config := by
  unfold main at h
  obtain ⟨loaded, hload, h⟩ := bind_eq_ok.mp h
  have hconfig : loaded.config = some config := by
    split_ifs at h
    · cases h
    · cases h
    · cases hloaded : loaded.config with
      | none => simp [hloaded, pure, Except.pure] at h
      | some found =>
        simp only [hloaded] at h
        obtain ⟨_, -, h⟩ := bind_eq_ok.mp h
        cases h
        rfl
  unfold load at hload
  split_ifs at hload
  · cases hload
    cases hconfig
  · cases hload
    cases hconfig
  · cases harguments : loadArguments argv with
    | mk helpRequested arguments =>
      cases arguments with
      | none =>
        simp only [harguments, Except.ok.injEq] at hload
        subst hload
        cases hconfig
      | some arguments =>
        simp only [harguments] at hload
        split_ifs at hload with hresult
        · obtain ⟨found, hconstruct, hload⟩ := bind_eq_ok.mp hload
          cases hload
          cases hconfig
          exact ⟨_, valid_of_loadConfig (Prod.ext hresult rfl), hconstruct⟩
        · cases hload
          cases hconfig

/-! ## The bounds over whole runs -/

theorem exitLimit_within {wait : Int} (h : 25 ≤ wait ∧ wait ≤ 100000) :
    2 ≤ GroupThread.exitLimit wait ∧ GroupThread.exitLimit wait ≤ 4001 := by
  have hdiv : wait.tdiv 25 = wait / 25 := Int.tdiv_eq_ediv_of_nonneg (by omega)
  unfold GroupThread.exitLimit
  omega

theorem size_within (h : Bounded config) (pool : ThreadPool) :
    1 ≤ ((processConfig config h).size pool).toNat ∧
      ((processConfig config h).size pool).toNat ≤ 250 := by
  cases pool with
  | listen => exact ⟨Nat.le_refl 1, (by decide : 1 ≤ 250)⟩
  | reader =>
    have hsize := poolSize_toNat h.readerPoolSize
    have hbounds := h.readerPoolSize
    simp only [ProcessConfig.size, processConfig]
    omega
  | datamodel =>
    have hsize := poolSize_toNat h.datamodelPoolSize
    have hbounds := h.datamodelPoolSize
    simp only [ProcessConfig.size, processConfig]
    omega
  | writer =>
    have hsize := poolSize_toNat h.writerPoolSize
    have hbounds := h.writerPoolSize
    simp only [ProcessConfig.size, processConfig]
    omega

/-- A configuration with which `main` comes to the process makes one, and a server. In
the process no pool outside its maintenance ever has less than one active thread or more
than 250, and the server never has more than 10001 descriptors open. -/
theorem runs_bounded (h : main file parse argv = .ok (.runs config process)) :
    ∃ hbounded : Bounded config,
      (∀ s, (Process.machine (processConfig config hbounded)).Reachable s →
        ∀ pool, s.main ≠ .inGroup pool →
          1 ≤ (s.groups pool).activeThreads.card ∧ (s.groups pool).activeThreads.card ≤ 250) ∧
      (2 ≤ GroupThread.exitLimit (processConfig config hbounded).waitServiceExit ∧
        GroupThread.exitLimit (processConfig config hbounded).waitServiceExit ≤ 4001) ∧
      ∀ lib listenerFd s,
        (Server.machine (serverConfig config hbounded lib listenerFd)).Reachable s →
          s.openFds.length ≤ 10001 := by
  obtain ⟨settings, hvalid, hconstruct⟩ := loaded_of_runs h
  have hbounded := bounded_of_loaded hvalid hconstruct
  refine ⟨hbounded, fun s hs pool hmain => ?_, exitLimit_within hbounded.waitServiceExit,
    fun lib listenerFd s hs => ?_⟩
  · rw [(Process.inv_of_reachable hs).card_active hmain]
    exact size_within hbounded pool
  · have hledger := Server.ledger_of_reachable hs
    have hlength := hledger.openFds.length_eq
    have hclients := hledger.bounded
    have hmost := hbounded.maxConcurrent
    simp only [serverConfig, List.length_cons] at hlength hclients
    omega

theorem main_shipped : ∃ config, main (fun _ => some [123])
    (fun _ => some (shippedDocument "server")) ["server", "-f", "conf.json"] =
      .ok (.runs config .server) := by
  have hparsed : parsedFile "-f" [("-f", "conf.json")] (fun _ => some [])
      (fun _ => some (shippedDocument "server")) = some (shippedDocument "server") := rfl
  obtain ⟨hnodup, htyped⟩ := (loadConfig_iff hparsed).mp (by decide)
  have hnames : NamesFiles ["server", "-f", "conf.json"] [("-f", "conf.json")] :=
    ⟨rfl, by decide +kernel, by decide +kernel⟩
  have haccepted : Accepted (fun _ => some [123]) (fun _ => some (shippedDocument "server"))
      ["server", "-f", "conf.json"] (shippedDocument "server") :=
    ⟨_, "conf.json", [123], hnames, by decide +kernel, rfl, by decide, rfl, hnodup, htyped⟩
  obtain ⟨settings, -, hcomplete, hmain⟩ := main_of_accepted haccepted
  obtain ⟨⟨config, process⟩, hstart⟩ :=
    hcomplete.mpr ⟨by decide, List.mem_iff_getElem?.mpr ⟨24, rfl⟩⟩
  cases process
  rw [hstart] at hmain
  exact ⟨config, hmain⟩

theorem runs_bounded_shipped :
    ∃ config, ∃ hbounded : Bounded config,
      (∀ s, (Process.machine (processConfig config hbounded)).Reachable s →
        ∀ pool, s.main ≠ .inGroup pool → 1 ≤ (s.groups pool).activeThreads.card) ∧
      ∀ lib s, (Server.machine (serverConfig config hbounded lib 3)).Reachable s →
        s.openFds.length ≤ 10001 := by
  obtain ⟨config, hmain⟩ := main_shipped
  obtain ⟨hbounded, hactive, -, hopen⟩ := runs_bounded hmain
  exact ⟨config, hbounded, fun s hs pool hpool => (hactive s hs pool hpool).1,
    fun lib s hs => hopen lib 3 s hs⟩

end MultiplexServer.Configuration

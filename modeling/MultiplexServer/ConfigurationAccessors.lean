import MultiplexServer.ConfigurationAcceptance

/-! The numbers of an accepted document on their way to where they are used: the
accessors narrow them to `int32_t`, and the port goes on to the `uint16_t` of `htons`. -/

namespace MultiplexServer.Configuration
open Json

def narrow (value : Int64) : Int32 := value.toInt32

namespace Accessors

def networkConnectionPort (c : Config) : Int32 := narrow c.networkConnectionPort
def networkConnectionClientsMaxPending (c : Config) : Int32 :=
  narrow c.networkConnectionClientsMaxPending
def networkConnectionBufferSize (c : Config) : Int32 := narrow c.networkConnectionBufferSize
def networkConnectionClientsMaxConcurrent (c : Config) : Int32 :=
  narrow c.networkConnectionClientsMaxConcurrent
def networkConnectionReadTimeoutMs (c : Config) : Int32 := narrow c.networkConnectionReadTimeoutMs
def networkConnectionReadRetry (c : Config) : Int32 := narrow c.networkConnectionReadRetry
def networkConnectionWriteTimeoutMs (c : Config) : Int32 := narrow c.networkConnectionWriteTimeoutMs
def networkConnectionWriteRetry (c : Config) : Int32 := narrow c.networkConnectionWriteRetry
def protocolHeaderSizeLength (c : Config) : Int32 := narrow c.protocolHeaderSizeLength
def capacityDatamodelPoolSize (c : Config) : Int32 := narrow c.capacityDatamodelPoolSize
def capacityListenerPoolSize (c : Config) : Int32 := narrow c.capacityListenerPoolSize
def capacityReaderPoolSize (c : Config) : Int32 := narrow c.capacityReaderPoolSize
def capacityWriterPoolSize (c : Config) : Int32 := narrow c.capacityWriterPoolSize
def internalWaitServiceExit (c : Config) : Int32 := narrow c.internalWaitServiceExit

/-- The accessors that narrow, with the settings they stand for. The message size
keeps its `int64_t`. -/
def narrowing : List (Path × (Config → Int32)) :=
  [(networkConnectionPortPath, networkConnectionPort),
   (networkConnectionClientsMaxPendingPath, networkConnectionClientsMaxPending),
   (networkConnectionBufferSizePath, networkConnectionBufferSize),
   (networkConnectionClientsMaxConcurrentPath, networkConnectionClientsMaxConcurrent),
   (networkConnectionReadTimeoutMsPath, networkConnectionReadTimeoutMs),
   (networkConnectionReadRetryPath, networkConnectionReadRetry),
   (networkConnectionWriteTimeoutMsPath, networkConnectionWriteTimeoutMs),
   (networkConnectionWriteRetryPath, networkConnectionWriteRetry),
   (protocolHeaderSizeLengthPath, protocolHeaderSizeLength),
   (capacityDatamodelPoolSizePath, capacityDatamodelPoolSize),
   (capacityListenerPoolSizePath, capacityListenerPoolSize),
   (capacityReaderPoolSizePath, capacityReaderPoolSize),
   (capacityWriterPoolSizePath, capacityWriterPoolSize),
   (internalWaitServiceExitPath, internalWaitServiceExit)]

end Accessors

/-- What `c_network_address` hands to `htons`, whose parameter is a `uint16_t`. -/
def htonsArgument (port : Int32) : UInt16 := port.toUInt32.toUInt16

/-- Every stored number survives the narrowing of its accessor, in a constructed
configuration too, and the port reaches `htons` as it was written. -/
structure UsedUnchanged (settings : Settings) : Prop where
  narrowed : ∀ a ∈ Accessors.narrowing, ∀ value, settings.lookup a.1 = some (.long value) →
    (narrow value).toInt = value.toInt
  accessors : ∀ c, construct settings = .ok c → ∀ a ∈ Accessors.narrowing,
    ∃ value, settings.lookup a.1 = some (.long value) ∧ (a.2 c).toInt = value.toInt
  port : ∀ value, settings.lookup networkConnectionPortPath = some (.long value) →
    ((htonsArgument (narrow value)).toNat : Int) = value.toInt

theorem extractInt64_eq_ok {settings : Settings} {key : Path} {value : Int64}
    (h : extractInt64 settings key = .ok value) :
    settings.lookup key = some (.long value) := by
  cases hvalue : settings.lookup key with
  | none => simp [extractInt64, find, hvalue, bind, Except.bind] at h
  | some stored =>
    cases stored with
    | long data =>
      simp only [extractInt64, find, hvalue, bind, Except.bind, Except.ok.injEq] at h
      rw [h]
    | string | double | bool => simp [extractInt64, find, hvalue, bind, Except.bind] at h

theorem accessor_eq_narrow {settings : Settings} {c : Config} (h : construct settings = .ok c) :
    ∀ a ∈ Accessors.narrowing,
      ∃ value, settings.lookup a.1 = some (.long value) ∧ a.2 c = narrow value := by
  simp only [construct, bind_eq_ok, pure, Except.pure, Except.ok.injEq] at h
  obtain ⟨_, -, port, hport, pending, hpending, buffer, hbuffer, _, -, concurrent, hconcurrent,
    readTimeout, hreadTimeout, readRetry, hreadRetry, hrest⟩ := h
  obtain ⟨writeTimeout, hwriteTimeout, writeRetry, hwriteRetry, header, hheader, datamodel,
    hdatamodel, listener, hlistener, reader, hreader, writer, hwriter, exit, hexit, hrest⟩ := hrest
  obtain ⟨_, -, _, -, _, -, _, -, _, -, _, -, _, -, _, -, _, -, _, -, rfl⟩ := hrest
  simp only [Accessors.narrowing, List.forall_mem_cons]
  exact ⟨⟨port, extractInt64_eq_ok hport, rfl⟩, ⟨pending, extractInt64_eq_ok hpending, rfl⟩,
    ⟨buffer, extractInt64_eq_ok hbuffer, rfl⟩, ⟨concurrent, extractInt64_eq_ok hconcurrent, rfl⟩,
    ⟨readTimeout, extractInt64_eq_ok hreadTimeout, rfl⟩,
    ⟨readRetry, extractInt64_eq_ok hreadRetry, rfl⟩,
    ⟨writeTimeout, extractInt64_eq_ok hwriteTimeout, rfl⟩,
    ⟨writeRetry, extractInt64_eq_ok hwriteRetry, rfl⟩, ⟨header, extractInt64_eq_ok hheader, rfl⟩,
    ⟨datamodel, extractInt64_eq_ok hdatamodel, rfl⟩,
    ⟨listener, extractInt64_eq_ok hlistener, rfl⟩, ⟨reader, extractInt64_eq_ok hreader, rfl⟩,
    ⟨writer, extractInt64_eq_ok hwriter, rfl⟩, ⟨exit, extractInt64_eq_ok hexit, rfl⟩,
    fun _ h => absurd h List.not_mem_nil⟩

/-! ## The declared ranges against the widths -/

def Constraints.fitsInt32 : Constraints → Bool
  | .long least greatest => -2147483648 ≤ least && greatest ≤ 2147483647
  | _ => true

theorem configure_fitsInt32 :
    ∀ e ∈ configure, e.constraints.fitsInt32 = true ∨ e.jsonPath = networkConnectionPortPath := by
  decide

theorem narrow_toInt {value : Int64} (hlow : -2147483648 ≤ value.toInt)
    (hhigh : value.toInt ≤ 2147483647) : (narrow value).toInt = value.toInt := by
  rw [narrow, Int64.toInt_toInt32, Int.bmod_def]
  omega

theorem htonsArgument_toNat {port : Int32} (h : 0 ≤ port.toInt) :
    ((htonsArgument port).toNat : Int) = port.toInt % 65536 := by
  have hbits : port.toInt = (port.toUInt32.toNat : Int).bmod (2 ^ 32) :=
    BitVec.toInt_eq_toNat_bmod port.toBitVec
  have hlt := port.toUInt32.toNat_lt
  rw [htonsArgument, UInt32.toNat_toUInt16]
  rw [hbits, Int.bmod_def] at h ⊢
  omega

theorem long_in_range {settings : Settings}
    (hvalid : settings.all fun setting =>
      isConfiguredAndValid configure setting.1 setting.2.elementType setting.2)
    {path : Path} {value : Int64} (h : settings.lookup path = some (.long value)) :
    0 ≤ value.toInt ∧ (value.toInt ≤ 2147483647 ∨ path = networkConnectionPortPath) := by
  have hsetting := List.all_eq_true.mp hvalid _ (mem_of_lookup h)
  obtain ⟨e, he, rfl, htype, hrange⟩ := (isConfiguredAndValid_iff _ _ _).mp hsetting
  cases hc : e.constraints with
  | string | double | bool =>
    simp [ConfigElement.elementType, hc, Constraints.elementType, ConfigValue.elementType] at htype
  | long least greatest =>
    rw [long_valid_iff hc] at hrange
    have hnatural := configure_natural e he
    simp only [hc, Constraints.natural, decide_eq_true_eq, Int64.le_iff_toInt_le,
      Int64.reduceToInt] at hnatural
    refine ⟨by omega, ?_⟩
    rcases configure_fitsInt32 e he with hfits | hport
    · simp only [hc, Constraints.fitsInt32, Bool.and_eq_true, decide_eq_true_eq,
        Int64.le_iff_toInt_le, Int64.reduceToInt] at hfits
      exact .inl (by omega)
    · exact .inr hport

variable {argKey : String} {arguments : List (String × String)}
  {file : String → Option (List UInt8)} {parse : List UInt8 → Option Json} {settings : Settings}

theorem valid_of_loadConfig (h : loadConfig argKey arguments file parse = (true, settings)) :
    settings.all fun setting =>
      isConfiguredAndValid configure setting.1 setting.2.elementType setting.2 := by
  unfold loadConfig at h
  split at h
  · cases h
  · dsimp only at h
    split_ifs at h
    · obtain ⟨hvalid, rfl⟩ := Prod.mk.inj h
      exact hvalid
    · cases h

/-- Accepted numbers are used unchanged exactly when no port beyond 16 bits is stored. -/
theorem usedUnchanged_iff (h : loadConfig argKey arguments file parse = (true, settings)) :
    UsedUnchanged settings ↔ ∀ value,
      settings.lookup networkConnectionPortPath = some (.long value) → value.toInt ≤ 65535 := by
  have hvalid := valid_of_loadConfig h
  constructor
  · intro hused value hport
    have hsame := hused.port value hport
    have hlt := (htonsArgument (narrow value)).toNat_lt
    omega
  · intro hport
    have hnarrowed : ∀ path value, settings.lookup path = some (.long value) →
        (narrow value).toInt = value.toInt := by
      intro path value hvalue
      obtain ⟨hlow, hhigh⟩ := long_in_range hvalid hvalue
      refine narrow_toInt (by omega) ?_
      rcases hhigh with hhigh | rfl
      · exact hhigh
      · have := hport value hvalue
        omega
    refine ⟨fun a _ value hvalue => hnarrowed a.1 value hvalue, fun c hc a ha => ?_,
      fun value hvalue => ?_⟩
    · obtain ⟨value, hvalue, hnarrow⟩ := accessor_eq_narrow hc a ha
      exact ⟨value, hvalue, by rw [hnarrow, hnarrowed a.1 value hvalue]⟩
    · have hlow := (long_in_range hvalid hvalue).1
      have hhigh := hport value hvalue
      have hsame := hnarrowed _ value hvalue
      rw [htonsArgument_toNat (by omega), hsame]
      omega

theorem usedUnchanged_shipped : UsedUnchanged (loadDocument (shippedDocument "server")).2 := by
  have hload : loadDocument (shippedDocument "server") =
      (true, (loadDocument (shippedDocument "server")).2) := Prod.ext (by decide) rfl
  refine (usedUnchanged_iff hload).mpr fun value hvalue => ?_
  have hport : (loadDocument (shippedDocument "server")).2.lookup networkConnectionPortPath =
      some (.long 9999) := by decide
  rw [hport] at hvalue
  cases hvalue
  decide

/-- A port of 75535 is accepted, and the server binds to 9999. -/
theorem port_not_unchanged :
    loadDocument (portDocument 75535) = (true, [(networkConnectionPortPath, .long 75535)]) ∧
    htonsArgument (narrow 75535) = 9999 ∧
    ¬ UsedUnchanged [(networkConnectionPortPath, .long 75535)] := by
  refine ⟨by decide, by decide, fun h => ?_⟩
  exact absurd (h.port 75535 (by decide)) (by decide)

end MultiplexServer.Configuration

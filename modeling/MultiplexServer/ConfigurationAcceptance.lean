import Mathlib.Data.List.Forall2
import MultiplexServer.ConfigurationStart

/-! Which documents `load_config` accepts. The flattening stores every leaf it can
handle under its path, and a number without a sign is wrapped into `int64_t`; no
declared range reaches below zero, where the wrapped numbers are. -/

namespace MultiplexServer.Configuration
open Json

/-- A leaf of the declared type within the constraints: a string among the options, an
integer as it is written between the bounds. -/
def Admits (e : ConfigElement) : Json → Prop
  | .string value => e.elementType = .string ∧
      ∀ options, e.constraints = .string options → options = [] ∨ value ∈ options
  | .boolean _ => e.elementType = .bool
  | .integer value => e.elementType = .long ∧ ∀ least greatest,
      e.constraints = .long least greatest →
        least.toInt ≤ value.toInt ∧ value.toInt ≤ greatest.toInt
  | .unsigned value => e.elementType = .long ∧ ∀ least greatest,
      e.constraints = .long least greatest →
        least.toInt ≤ value.toNat ∧ value.toNat ≤ greatest.toInt
  | .float _ => e.elementType = .double
  | _ => False

def AdmittedLeaf (leaf : Path × Json) : Prop :=
  ∃ e ∈ configure, e.jsonPath = leaf.1 ∧ Admits e leaf.2

/-- Every leaf sits at a declared path, with its type and within its constraints. -/
def WellTyped (j : Json) : Prop := ∀ leaf ∈ j.allLeaves, AdmittedLeaf leaf

def Constraints.natural : Constraints → Bool
  | .long least _ => 0 ≤ least
  | .double _ _ => false
  | _ => true

theorem configure_natural : ∀ e ∈ configure, e.constraints.natural = true := by decide

theorem toInt_toInt64 (value : UInt64) :
    value.toInt64.toInt = (value.toNat : Int) ∨
      9223372036854775808 ≤ value.toNat ∧ value.toInt64.toInt < 0 := by
  have hbits : value.toInt64.toInt = (value.toNat : Int).bmod (2 ^ 64) :=
    BitVec.toInt_eq_toNat_bmod value.toBitVec
  have hlt := value.toNat_lt
  rw [hbits, Int.bmod_def]
  omega

theorem within_toInt64_iff {least greatest : Int64} (h : 0 ≤ least.toInt) (value : UInt64) :
    least.toInt ≤ value.toInt64.toInt ∧ value.toInt64.toInt ≤ greatest.toInt ↔
      least.toInt ≤ value.toNat ∧ value.toNat ≤ greatest.toInt := by
  have hgreatest := greatest.toInt_lt
  rcases toInt_toInt64 value with hsame | ⟨hbig, hnegative⟩
  · rw [hsame]
  · omega

theorem long_valid_iff {e : ConfigElement} {least greatest value : Int64}
    (h : e.constraints = .long least greatest) :
    e.isValidValue (.long value) = true ↔
      least.toInt ≤ value.toInt ∧ value.toInt ≤ greatest.toInt := by
  simp only [ConfigElement.isValidValue, h, Bool.and_eq_true, decide_eq_true_eq,
    Int64.le_iff_toInt_le]

theorem valid_iff_admits {e : ConfigElement} (he : e ∈ configure) {value : Json}
    {stored : ConfigValue} (h : configValue value = some stored) :
    e.elementType = stored.elementType ∧ e.isValidValue stored = true ↔ Admits e value := by
  have hnatural := configure_natural e he
  cases value with
  | null | array | object => cases h
  | string value =>
    cases h
    cases hc : e.constraints with
    | string options =>
      simp [Admits, ConfigElement.elementType, ConfigElement.isValidValue, hc,
        Constraints.elementType, ConfigValue.elementType]
    | long | double | bool =>
      simp [Admits, ConfigElement.elementType, hc, Constraints.elementType,
        ConfigValue.elementType]
  | boolean value =>
    cases h
    cases hc : e.constraints with
    | bool =>
      simp [Admits, ConfigElement.elementType, ConfigElement.isValidValue, hc,
        Constraints.elementType, ConfigValue.elementType]
    | string | long | double =>
      simp [Admits, ConfigElement.elementType, hc, Constraints.elementType,
        ConfigValue.elementType]
  | integer value =>
    cases h
    cases hc : e.constraints with
    | long least greatest =>
      simp [Admits, long_valid_iff hc, ConfigElement.elementType, hc, Constraints.elementType,
        ConfigValue.elementType]
    | string | double | bool =>
      simp [Admits, ConfigElement.elementType, hc, Constraints.elementType,
        ConfigValue.elementType]
  | unsigned value =>
    cases h
    cases hc : e.constraints with
    | long least greatest =>
      have hleast : 0 ≤ least.toInt := by
        simpa [Constraints.natural, hc, Int64.le_iff_toInt_le] using hnatural
      simp [Admits, long_valid_iff hc, ConfigElement.elementType, hc, Constraints.elementType,
        ConfigValue.elementType, within_toInt64_iff hleast]
    | string | double | bool =>
      simp [Admits, ConfigElement.elementType, hc, Constraints.elementType,
        ConfigValue.elementType]
  | float value =>
    cases h
    cases hc : e.constraints with
    | double least greatest => simp [Constraints.natural, hc] at hnatural
    | string | long | bool =>
      simp [Admits, ConfigElement.elementType, hc, Constraints.elementType,
        ConfigValue.elementType]

theorem isConfiguredAndValid_iff (path : Path) (elementType : ConfigElementType)
    (value : ConfigValue) :
    isConfiguredAndValid configure path elementType value = true ↔
      ∃ e ∈ configure, e.jsonPath = path ∧ e.elementType = elementType ∧
        e.isValidValue value = true := by
  unfold isConfiguredAndValid
  constructor
  · intro h
    split at h
    · cases h
    · rename_i e he
      have hfound := List.find?_some he
      simp only [decide_eq_true_eq] at hfound
      exact ⟨e, List.mem_of_find?_eq_some he, hfound.1, hfound.2, h⟩
  · rintro ⟨e, he, hpath, htype, hvalid⟩
    split
    · rename_i hnone
      have := List.find?_eq_none.mp hnone e he
      simp [hpath, htype] at this
    · rename_i d hd
      have hfound := List.find?_some hd
      simp only [decide_eq_true_eq] at hfound
      rw [configure_path_unique (List.mem_of_find?_eq_some hd) he (hfound.1.trans hpath.symm)]
      exact hvalid

theorem Stores.valid_iff {leaf : Path × Json} {setting : Path × ConfigValue}
    (h : Stores leaf setting) :
    isConfiguredAndValid configure setting.1 setting.2.elementType setting.2 = true ↔
      AdmittedLeaf leaf := by
  rw [isConfiguredAndValid_iff, AdmittedLeaf, h.1]
  refine exists_congr fun e => and_congr_right fun he => and_congr_right fun _ => ?_
  exact valid_iff_admits he h.2

theorem AdmittedLeaf.stored {leaf : Path × Json} (h : AdmittedLeaf leaf) :
    ∃ stored, configValue leaf.2 = some stored := by
  obtain ⟨path, value⟩ := leaf
  obtain ⟨e, -, -, hadmits⟩ := h
  cases value with
  | null | array | object => exact hadmits.elim
  | string | boolean | integer | unsigned | float => exact ⟨_, rfl⟩

theorem extractAll_of_nodup {leaves : List (Path × Json)} {extracted : Settings}
    (hstored : ∀ leaf ∈ leaves, ∃ stored, configValue leaf.2 = some stored)
    (hnodup : (extracted.map Prod.fst ++ leaves.map Prod.fst).Nodup) :
    (extractAll leaves extracted).1 = true := by
  induction leaves generalizing extracted with
  | nil => rfl
  | cons leaf rest ih =>
    obtain ⟨stored, hvalue⟩ := hstored leaf List.mem_cons_self
    have hnew : (extracted.lookup leaf.1).isSome = false := by
      rw [Bool.eq_false_iff]
      intro hfound
      rw [lookup_isSome_iff] at hfound
      exact (List.nodup_append'.mp hnodup).2.2 hfound List.mem_cons_self
    have hleaf : extractLeaf leaf.1 leaf.2 extracted = (true, extracted ++ [(leaf.1, stored)]) := by
      simp [extractLeaf, hnew, hvalue]
    simp only [extractAll, hleaf, Bool.true_and]
    refine ih (fun other hother => hstored other (List.mem_cons_of_mem _ hother)) ?_
    simpa using hnodup

theorem forall₂_valid_iff {leaves : List (Path × Json)} {settings : Settings}
    (h : List.Forall₂ Stores leaves settings) :
    (settings.all fun setting =>
      isConfiguredAndValid configure setting.1 setting.2.elementType setting.2) = true ↔
      ∀ leaf ∈ leaves, AdmittedLeaf leaf := by
  induction h with
  | nil => simp
  | cons hstores _ ih =>
    rw [List.all_cons, Bool.and_eq_true, ih, hstores.valid_iff, List.forall_mem_cons]

/-! ## Every lookup reads a value at the type it was stored with -/

theorem bind_ne_wrongType {α β : Type} {x : Except StartFailure α} {f : α → Except StartFailure β}
    (hx : x ≠ .error .wrongType) (hf : ∀ a, f a ≠ .error .wrongType) :
    (x >>= f) ≠ .error .wrongType := by
  cases x with
  | error e => exact fun h => hx (by cases h; rfl)
  | ok a => exact hf a

section Lookup

variable {settings : Settings} (h : Typed settings) {key : Path}

include h

theorem find_ne_wrongType {α : Type} {elementType : ConfigElementType}
    (hkey : Declared key elementType) {message : String} {f : ConfigValue → Except StartFailure α}
    (hf : ∀ value, value.elementType = elementType → f value ≠ .error .wrongType) :
    (find settings key message >>= f) ≠ .error .wrongType := by
  cases hvalue : settings.lookup key with
  | none => simp [find, hvalue, bind, Except.bind]
  | some value =>
    have htype := h.elementType hkey hvalue
    simpa [find, hvalue, bind, Except.bind] using hf value htype

theorem getProcessType_ne_wrongType (hkey : Declared key .string) :
    getProcessType settings key ≠ .error .wrongType := by
  refine find_ne_wrongType h hkey fun value htype => ?_
  cases value with
  | string data => dsimp only; split_ifs <;> simp
  | long | double | bool => cases htype

theorem extractString_ne_wrongType (hkey : Declared key .string) :
    extractString settings key ≠ .error .wrongType := by
  refine find_ne_wrongType h hkey fun value htype => ?_
  cases value with
  | string data => simp
  | long | double | bool => cases htype

theorem extractInt64_ne_wrongType (hkey : Declared key .long) :
    extractInt64 settings key ≠ .error .wrongType := by
  refine find_ne_wrongType h hkey fun value htype => ?_
  cases value with
  | long data => simp
  | string | double | bool => cases htype

theorem extractBool_ne_wrongType (hkey : Declared key .bool) :
    extractBool settings key ≠ .error .wrongType := by
  refine find_ne_wrongType h hkey fun value htype => ?_
  cases value with
  | bool data => simp
  | string | long | double => cases htype

omit h in
theorem getProcess_ne_wrongType (type : TypeProcess) : getProcess type ≠ .error .wrongType := by
  cases type with
  | none => simp [getProcess]
  | server => simp [getProcess]

theorem start_ne_wrongType : start settings ≠ .error .wrongType := by
  simp only [start, construct, bind_assoc, pure_bind]
  refine bind_ne_wrongType (getProcessType_ne_wrongType h (by decide)) fun processType => ?_
  iterate 15 refine bind_ne_wrongType (extractInt64_ne_wrongType h (by decide)) fun _ => ?_
  iterate 5 refine bind_ne_wrongType (extractString_ne_wrongType h (by decide)) fun _ => ?_
  iterate 5 refine bind_ne_wrongType (extractBool_ne_wrongType h (by decide)) fun _ => ?_
  exact bind_ne_wrongType (getProcess_ne_wrongType processType) fun _ => by simp [pure, Except.pure]

end Lookup

section LoadConfig

variable {argKey : String} {arguments : List (String × String)}
  {file : String → Option (List UInt8)} {parse : List UInt8 → Option Json} {j : Json}

theorem loadConfig_iff (hfile : parsedFile argKey arguments file parse = some j) :
    (loadConfig argKey arguments file parse).1 = true ↔ j.paths.Nodup ∧ WellTyped j := by
  have hload : loadConfig argKey arguments file parse =
      if (extractAll j.allLeaves []).1 then
        ((extractAll j.allLeaves []).2.all fun setting =>
          isConfiguredAndValid configure setting.1 setting.2.elementType setting.2,
          (extractAll j.allLeaves []).2)
      else (false, (extractAll j.allLeaves []).2) := by
    simp only [loadConfig, hfile, extractConfigurationFromJson, extractItems_eq]
    rfl
  rw [hload]
  by_cases hextract : (extractAll j.allLeaves []).1 = true
  · obtain ⟨added, hadded, hstores, hnodup⟩ := extractAll_eq_true hextract
    rw [List.nil_append] at hadded
    have hpaths : j.paths.Nodup := by
      have := hnodup List.nodup_nil
      rwa [hadded, stores_paths hstores] at this
    rw [if_pos hextract]
    simp only [hadded, forall₂_valid_iff hstores]
    exact ⟨fun h => ⟨hpaths, h⟩, fun h => h.2⟩
  · rw [if_neg hextract]
    refine iff_of_false Bool.false_ne_true ?_
    rintro ⟨hpaths, htyped⟩
    exact hextract (extractAll_of_nodup (fun leaf hleaf => (htyped leaf hleaf).stored) hpaths)

/-- `load_config` accepts exactly the well-typed objects, and no later lookup reads
what it stored at another type. -/
theorem loadConfig_wellTyped_iff {members : Members}
    (hkeys : (Json.object members).distinctKeys = true)
    (hfile : parsedFile argKey arguments file parse = some (.object members)) :
    ((loadConfig argKey arguments file parse).1 = true ↔ WellTyped (.object members)) ∧
    ((loadConfig argKey arguments file parse).1 = true →
      Typed (loadConfig argKey arguments file parse).2 ∧
      start (loadConfig argKey arguments file parse).2 ≠ .error .wrongType) := by
  have hpaths : (Json.object members).paths.Nodup := leaves_nodup (.object members) [] hkeys
  constructor
  · rw [loadConfig_iff hfile]
    exact and_iff_right hpaths
  · intro hload
    obtain ⟨htyped, -, -⟩ := loadConfig_eq_true hfile (Prod.ext hload rfl)
    exact ⟨htyped, start_ne_wrongType htyped⟩

end LoadConfig

def portDocument (port : UInt64) : Json :=
  .object [("network", .object [("connection", .object [("port", .unsigned port)])])]

theorem loadConfig_wellTyped_shipped :
    WellTyped (shippedDocument "server") ∧ ¬ WellTyped (portDocument 18446744073709551615) := by
  have hload (j : Json) : parsedFile "-f" [("-f", "conf.json")] (fun _ => some [])
      (fun _ => some j) = some j := rfl
  constructor
  · exact (loadConfig_wellTyped_iff (by decide) (hload (shippedDocument "server"))).1.mp (by decide)
  · have hport := (loadConfig_wellTyped_iff (by decide)
      (hload (portDocument 18446744073709551615))).1
    exact fun h => absurd (hport.mpr h) (by decide)

end MultiplexServer.Configuration

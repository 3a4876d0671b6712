import MultiplexServer.Configuration

/-! `c_json` and `c_config::load_config`: the document is flattened into a map from
paths to typed values, and every entry of the map is checked against the table. -/

namespace MultiplexServer.Configuration
open Json

abbrev Settings := List (Path × ConfigValue)

/-- A leaf as it is stored, if its type is one that is handled. A number without a
sign is converted to `int64_t` as it stands. -/
def configValue : Json → Option ConfigValue
  | .string value => some (.string value)
  | .boolean value => some (.bool value)
  | .integer value => some (.long value)
  | .unsigned value => some (.long value.toInt64)
  | .float value => some (.double value)
  | _ => none

def extractLeaf (path : Path) (value : Json) (extracted : Settings) : Bool × Settings :=
  if (extracted.lookup path).isSome then (false, extracted)
  else
    match configValue value with
    | some stored => (true, extracted ++ [(path, stored)])
    | none => (false, extracted)

mutual

def extractChild : Json → Path → Settings → Bool × Settings
  | .object members, path, extracted => extractItems members path extracted
  | value, path, extracted => extractLeaf path value extracted

def extractItems : Members → Path → Settings → Bool × Settings
  | [], _, extracted => (true, extracted)
  | item :: rest, path, extracted =>
    let child := extractItem item path extracted
    let others := extractItems rest path child.2
    (child.1 && others.1, others.2)

def extractItem : String × Json → Path → Settings → Bool × Settings
  | (key, value), path, extracted => extractChild value (path ++ [key]) extracted

end

def extractConfigurationFromJson (parent : Json) (path : Path) (extracted : Settings) :
    Bool × Settings :=
  extractItems parent.items path extracted

def isConfiguredAndValid (elements : List ConfigElement) (path : Path)
    (elementType : ConfigElementType) (value : ConfigValue) : Bool :=
  match elements.find? fun e => e.jsonPath = path ∧ e.elementType = elementType with
  | none => false
  | some e => e.isValidValue value

/-- The file named by the argument, parsed up to its first NUL. -/
def parsedFile (argKey : String) (arguments : List (String × String))
    (file : String → Option (List UInt8)) (parse : List UInt8 → Option Json) : Option Json := do
  let filename ← arguments.lookup argKey
  let content ← file filename
  parse (content.takeWhile (· ≠ 0))

def loadConfig (argKey : String) (arguments : List (String × String))
    (file : String → Option (List UInt8)) (parse : List UInt8 → Option Json) : Bool × Settings :=
  match parsedFile argKey arguments file parse with
  | none => (false, [])
  | some j =>
    let extraction := extractConfigurationFromJson j [] []
    if extraction.1 then
      (extraction.2.all fun setting =>
        isConfiguredAndValid configure setting.1 setting.2.elementType setting.2, extraction.2)
    else (false, extraction.2)

/-! ## The recursion visits the leaves in order -/

def extractAll : List (Path × Json) → Settings → Bool × Settings
  | [], extracted => (true, extracted)
  | leaf :: rest, extracted =>
    let first := extractLeaf leaf.1 leaf.2 extracted
    let others := extractAll rest first.2
    (first.1 && others.1, others.2)

theorem extractAll_singleton (path : Path) (value : Json) (extracted : Settings) :
    extractAll [(path, value)] extracted = extractLeaf path value extracted := by
  simp only [extractAll, Bool.and_true]

theorem extractAll_append (xs ys : List (Path × Json)) (extracted : Settings) :
    extractAll (xs ++ ys) extracted =
      ((extractAll xs extracted).1 && (extractAll ys (extractAll xs extracted).2).1,
        (extractAll ys (extractAll xs extracted).2).2) := by
  induction xs generalizing extracted with
  | nil => simp only [List.nil_append, extractAll, Bool.true_and]
  | cons x xs ih => simp only [List.cons_append, extractAll, ih, Bool.and_assoc]

mutual

theorem extractChild_eq (value : Json) (path : Path) (extracted : Settings) :
    extractChild value path extracted = extractAll (leaves value path) extracted := by
  cases value with
  | object members => rw [extractChild, leaves, extractItems_eq]
  | null | boolean | integer | unsigned | float | string | array =>
    simp only [extractChild, leaves, extractAll_singleton]

theorem extractItems_eq (items : Members) (path : Path) (extracted : Settings) :
    extractItems items path extracted = extractAll (memberLeaves items path) extracted := by
  cases items with
  | nil => rfl
  | cons item rest =>
    simp only [extractItems, memberLeaves, extractAll_append, extractItem_eq item,
      extractItems_eq rest]

theorem extractItem_eq (item : String × Json) (path : Path) (extracted : Settings) :
    extractItem item path extracted = extractAll (pairLeaves item path) extracted := by
  cases item with
  | mk key value => rw [extractItem, pairLeaves, extractChild_eq value]

end

/-! ## What an extraction without a complaint has stored -/

def Stores (leaf : Path × Json) (setting : Path × ConfigValue) : Prop :=
  leaf.1 = setting.1 ∧ configValue leaf.2 = some setting.2

theorem extractLeaf_eq_true {path : Path} {value : Json} {extracted : Settings}
    (h : (extractLeaf path value extracted).1 = true) :
    path ∉ extracted.map Prod.fst ∧ ∃ stored, configValue value = some stored ∧
      (extractLeaf path value extracted).2 = extracted ++ [(path, stored)] := by
  unfold extractLeaf at h ⊢
  split_ifs at h ⊢ with hfound
  constructor
  · intro hmem
    obtain ⟨setting, hsetting, rfl⟩ := List.mem_map.mp hmem
    exact hfound (List.lookup_isSome_iff.mpr ⟨setting, hsetting, by simp⟩)
  · cases hvalue : configValue value with
    | none => simp only [hvalue] at h; cases h
    | some stored => exact ⟨stored, rfl, rfl⟩

theorem extractAll_eq_true {leaves : List (Path × Json)} {extracted : Settings}
    (h : (extractAll leaves extracted).1 = true) :
    ∃ added, (extractAll leaves extracted).2 = extracted ++ added ∧
      List.Forall₂ Stores leaves added ∧
      ((extracted.map Prod.fst).Nodup → ((extractAll leaves extracted).2.map Prod.fst).Nodup) := by
  induction leaves generalizing extracted with
  | nil => exact ⟨[], by simp [extractAll], .nil, id⟩
  | cons leaf rest ih =>
    simp only [extractAll, Bool.and_eq_true] at h ⊢
    obtain ⟨hnew, stored, hstored, hout⟩ := extractLeaf_eq_true h.1
    obtain ⟨added, hadded, hstores, hnodup⟩ := ih h.2
    refine ⟨(leaf.1, stored) :: added, ?_, .cons ⟨rfl, hstored⟩ hstores, fun hdistinct => ?_⟩
    · rw [hadded, hout, List.append_assoc]
      rfl
    · apply hnodup
      rw [hout, List.map_append, List.nodup_append']
      simp [hdistinct, hnew]

theorem Stores.string_iff {leaf : Path × Json} {path : Path} {s : String} :
    Stores leaf (path, .string s) ↔ leaf = (path, .string s) := by
  obtain ⟨p, value⟩ := leaf
  cases value <;> simp [Stores, configValue]

theorem stores_paths {leaves : List (Path × Json)} {added : Settings}
    (h : List.Forall₂ Stores leaves added) : added.map Prod.fst = leaves.map Prod.fst := by
  induction h with
  | nil => rfl
  | cons hstores _ ih => rw [List.map_cons, List.map_cons, ih, hstores.1]

theorem stores_string {leaves : List (Path × Json)} {added : Settings}
    (h : List.Forall₂ Stores leaves added) (path : Path) (s : String) :
    (path, ConfigValue.string s) ∈ added ↔ (path, Json.string s) ∈ leaves := by
  induction h with
  | nil => simp
  | @cons leaf setting _ _ hstores _ ih =>
    have hhead : (path, ConfigValue.string s) = setting ↔ (path, Json.string s) = leaf := by
      constructor
      · rintro rfl
        exact (Stores.string_iff.mp hstores).symm
      · rintro rfl
        obtain ⟨hpath, hvalue⟩ := hstores
        exact Prod.ext hpath (Option.some.inj hvalue)
    rw [List.mem_cons, List.mem_cons, hhead, ih]

end MultiplexServer.Configuration

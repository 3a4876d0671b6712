import MultiplexServer.ConfigurationExtraction

/-! The map that `extract_configuration_from_json` leaves, entry by entry. The recursion
goes on after a leaf it cannot handle, and distinct leaves have distinct paths. -/

namespace MultiplexServer

namespace Json

/-- A value that is not an object, under the keys that lead to it. -/
inductive LeafAt : Json → Path → Json → Prop where
  | here {leaf : Json} (h : ∀ members, leaf ≠ .object members) : LeafAt leaf [] leaf
  | under {members : Members} {member : String × Json} {path : Path} {leaf : Json}
      (mem : member ∈ members) (h : LeafAt member.2 path leaf) :
      LeafAt (.object members) (member.1 :: path) leaf

theorem leafAt_object_iff {members : Members} {path : Path} {leaf : Json} :
    LeafAt (.object members) path leaf ↔
      ∃ member ∈ members, ∃ rest, path = member.1 :: rest ∧ LeafAt member.2 rest leaf := by
  constructor
  · intro h
    cases h with
    | here h => exact absurd rfl (h members)
    | under hmem h => exact ⟨_, hmem, _, rfl, h⟩
  · rintro ⟨member, hmem, rest, rfl, h⟩
    exact .under hmem h

theorem leafAt_iff_of_not_object {value leaf : Json} {path : Path}
    (h : ∀ members, value ≠ .object members) :
    LeafAt value path leaf ↔ path = [] ∧ leaf = value := by
  constructor
  · intro hleaf
    cases hleaf with
    | here => exact ⟨rfl, rfl⟩
    | under => exact absurd rfl (h _)
  · rintro ⟨rfl, rfl⟩
    exact .here h

theorem LeafAt.not_object {j : Json} {path : Path} {leaf : Json} (h : LeafAt j path leaf) :
    ∀ members, leaf ≠ .object members := by
  induction h with
  | here h => exact h
  | under _ _ ih => exact ih

mutual

theorem mem_leaves (value : Json) (path : Path) (leaf : Path × Json) :
    leaf ∈ leaves value path ↔ ∃ rest, leaf.1 = path ++ rest ∧ LeafAt value rest leaf.2 := by
  cases value with
  | object members =>
    rw [leaves, mem_memberLeaves members path leaf]
    constructor
    · rintro ⟨member, hmem, rest, hpath, h⟩
      exact ⟨member.1 :: rest, hpath, .under hmem h⟩
    · rintro ⟨rest, hpath, h⟩
      obtain ⟨member, hmem, below, rfl, hleaf⟩ := leafAt_object_iff.mp h
      exact ⟨member, hmem, below, hpath, hleaf⟩
  | null | boolean | integer | unsigned | float | string | array =>
    simp [leaves, leafAt_iff_of_not_object, Prod.ext_iff]

theorem mem_memberLeaves (members : Members) (path : Path) (leaf : Path × Json) :
    leaf ∈ memberLeaves members path ↔
      ∃ member ∈ members, ∃ rest, leaf.1 = path ++ member.1 :: rest ∧
        LeafAt member.2 rest leaf.2 := by
  cases members with
  | nil => simp [memberLeaves]
  | cons member rest =>
    rw [memberLeaves, List.mem_append, mem_pairLeaves member path leaf,
      mem_memberLeaves rest path leaf]
    simp only [List.mem_cons, exists_eq_or_imp]

theorem mem_pairLeaves (member : String × Json) (path : Path) (leaf : Path × Json) :
    leaf ∈ pairLeaves member path ↔
      ∃ rest, leaf.1 = path ++ member.1 :: rest ∧ LeafAt member.2 rest leaf.2 := by
  cases member with
  | mk key value =>
    rw [pairLeaves, mem_leaves value (path ++ [key]) leaf]
    simp only [List.append_assoc, List.singleton_append]

end

theorem mem_memberLeaves_iff {members : Members} {leaf : Path × Json} :
    leaf ∈ memberLeaves members [] ↔ LeafAt (.object members) leaf.1 leaf.2 := by
  rw [mem_memberLeaves, leafAt_object_iff]
  simp only [List.nil_append]

end Json

namespace Configuration
open Json

inductive Tagged : Json → ConfigValue → Prop where
  | string (value : String) : Tagged (.string value) (.string value)
  | boolean (value : Bool) : Tagged (.boolean value) (.bool value)
  | integer (value : Int64) : Tagged (.integer value) (.long value)
  | unsigned (value : UInt64) : Tagged (.unsigned value) (.long value.toInt64)
  | float (value : Rat) : Tagged (.float value) (.double value)

theorem tagged_iff {leaf : Json} {stored : ConfigValue} :
    Tagged leaf stored ↔ configValue leaf = some stored := by
  constructor
  · intro h
    cases h <;> rfl
  · intro h
    cases leaf <;> cases h <;> constructor

/-! ## Where the branch for duplicates is taken -/

def leafDuplicates (path : Path) (extracted : Settings) : List Path :=
  if (extracted.lookup path).isSome then [path] else []

mutual

/-- The paths of the children that are found in the map, when it is their turn. -/
def childDuplicates : Json → Path → Settings → List Path
  | .object members, path, extracted => itemsDuplicates members path extracted
  | _, path, extracted => leafDuplicates path extracted

def itemsDuplicates : Members → Path → Settings → List Path
  | [], _, _ => []
  | item :: rest, path, extracted =>
    itemDuplicates item path extracted ++
      itemsDuplicates rest path (extractItem item path extracted).2

def itemDuplicates : String × Json → Path → Settings → List Path
  | (key, value), path, extracted => childDuplicates value (path ++ [key]) extracted

end

def allDuplicates : List (Path × Json) → Settings → List Path
  | [], _ => []
  | leaf :: rest, extracted =>
    leafDuplicates leaf.1 extracted ++ allDuplicates rest (extractLeaf leaf.1 leaf.2 extracted).2

theorem allDuplicates_append (xs ys : List (Path × Json)) (extracted : Settings) :
    allDuplicates (xs ++ ys) extracted =
      allDuplicates xs extracted ++ allDuplicates ys (extractAll xs extracted).2 := by
  induction xs generalizing extracted with
  | nil => rfl
  | cons x xs ih => simp only [List.cons_append, allDuplicates, extractAll, ih, List.append_assoc]

mutual

theorem childDuplicates_eq (value : Json) (path : Path) (extracted : Settings) :
    childDuplicates value path extracted = allDuplicates (leaves value path) extracted := by
  cases value with
  | object members => rw [childDuplicates, leaves, itemsDuplicates_eq]
  | null | boolean | integer | unsigned | float | string | array =>
    simp only [childDuplicates, leaves, allDuplicates, List.append_nil]

theorem itemsDuplicates_eq (items : Members) (path : Path) (extracted : Settings) :
    itemsDuplicates items path extracted = allDuplicates (memberLeaves items path) extracted := by
  cases items with
  | nil => rfl
  | cons item rest =>
    simp only [itemsDuplicates, memberLeaves, allDuplicates_append, itemDuplicates_eq item,
      itemsDuplicates_eq rest, extractItem_eq]

theorem itemDuplicates_eq (item : String × Json) (path : Path) (extracted : Settings) :
    itemDuplicates item path extracted = allDuplicates (pairLeaves item path) extracted := by
  cases item with
  | mk key value => rw [itemDuplicates, pairLeaves, childDuplicates_eq value]

end

/-! ## Leaves with distinct paths -/

def entry (leaf : Path × Json) : Option (Path × ConfigValue) :=
  (configValue leaf.2).map (leaf.1, ·)

theorem lookup_of_new {path : Path} {extracted : Settings} (h : path ∉ extracted.map Prod.fst) :
    (extracted.lookup path).isSome = false := by
  rw [Bool.eq_false_iff]
  intro hfound
  obtain ⟨setting, hsetting, hsame⟩ := List.lookup_isSome_iff.mp hfound
  have hpath : path = setting.1 := by simpa using hsame
  exact h (List.mem_map.mpr ⟨setting, hsetting, hpath.symm⟩)

theorem extractLeaf_of_new {leaf : Path × Json} {extracted : Settings}
    (h : leaf.1 ∉ extracted.map Prod.fst) :
    extractLeaf leaf.1 leaf.2 extracted =
      ((configValue leaf.2).isSome, extracted ++ (entry leaf).toList) := by
  simp only [extractLeaf, lookup_of_new h, entry]
  cases configValue leaf.2 with
  | none => simp
  | some stored => rfl

theorem entry_eq_some_iff {leaf : Path × Json} {path : Path} {stored : ConfigValue} :
    entry leaf = some (path, stored) ↔ leaf.1 = path ∧ Tagged leaf.2 stored := by
  rw [tagged_iff, entry, Option.map_eq_some_iff]
  constructor
  · rintro ⟨value, hvalue, hpair⟩
    obtain ⟨hpath, hstored⟩ := Prod.mk.inj hpair
    exact ⟨hpath, hstored ▸ hvalue⟩
  · rintro ⟨rfl, hstored⟩
    exact ⟨stored, hstored, rfl⟩

theorem entry_path {leaf : Path × Json} {setting : Path × ConfigValue}
    (h : entry leaf = some setting) : setting.1 = leaf.1 := by
  obtain ⟨stored, -, rfl⟩ := Option.map_eq_some_iff.mp h
  rfl

theorem entry_paths_sublist (leaves : List (Path × Json)) :
    ((leaves.filterMap entry).map Prod.fst).Sublist (leaves.map Prod.fst) := by
  induction leaves with
  | nil => exact .slnil
  | cons leaf rest ih =>
    rw [List.filterMap_cons]
    cases hentry : entry leaf with
    | none => exact ih.cons leaf.1
    | some setting =>
      simp only [List.map_cons, entry_path hentry]
      exact ih.cons_cons leaf.1

theorem extractAll_of_distinct {leaves : List (Path × Json)} {extracted : Settings}
    (hnew : ∀ leaf ∈ leaves, leaf.1 ∉ extracted.map Prod.fst)
    (hdistinct : (leaves.map Prod.fst).Nodup) :
    extractAll leaves extracted = (leaves.all fun leaf => (configValue leaf.2).isSome,
      extracted ++ leaves.filterMap entry) ∧ allDuplicates leaves extracted = [] := by
  induction leaves generalizing extracted with
  | nil => exact ⟨by simp [extractAll], rfl⟩
  | cons leaf rest ih =>
    obtain ⟨hfirst, hrest⟩ := List.forall_mem_cons.mp hnew
    rw [List.map_cons, List.nodup_cons] at hdistinct
    have hleaf := extractLeaf_of_new hfirst
    have hnext : ∀ other ∈ rest,
        other.1 ∉ (extracted ++ (entry leaf).toList).map Prod.fst := by
      intro other hother hmem
      rw [List.map_append, List.mem_append] at hmem
      rcases hmem with hmem | hmem
      · exact hrest other hother hmem
      · obtain ⟨setting, hsetting, hpath⟩ := List.mem_map.mp hmem
        have hentry := entry_path (Option.mem_toList.mp hsetting)
        exact hdistinct.1 (List.mem_map.mpr ⟨other, hother, hpath.symm.trans hentry⟩)
    obtain ⟨hall, hnone⟩ := ih hnext hdistinct.2
    constructor
    · simp only [extractAll, hleaf, hall, List.all_cons, List.append_assoc]
      rw [List.filterMap_cons]
      cases entry leaf <;> rfl
    · rw [allDuplicates, leafDuplicates, lookup_of_new hfirst, hleaf, hnone]
      rfl

theorem configValue_isSome_iff {leaf : Json} (h : ∀ members, leaf ≠ .object members) :
    (configValue leaf).isSome = true ↔ ¬ (leaf = .null ∨ ∃ elements, leaf = .array elements) := by
  cases leaf with
  | object members => exact absurd rfl (h members)
  | null | boolean | integer | unsigned | float | string | array => simp [configValue]

/-- A tree with unique keys is flattened exactly: the entries are the leaves of the handled
types under their paths, the answer is false for arrays and nulls only, and the branch for
duplicates is never taken. -/
theorem extractConfigurationFromJson_exact {members : Members}
    (hkeys : (Json.object members).distinctKeys = true) :
    let extraction := extractConfigurationFromJson (.object members) [] []
    (∀ path stored, (path, stored) ∈ extraction.2 ↔
      ∃ leaf, LeafAt (.object members) path leaf ∧ Tagged leaf stored) ∧
    (extraction.2.map Prod.fst).Nodup ∧
    (extraction.1 = false ↔ ∃ path leaf, LeafAt (.object members) path leaf ∧
      (leaf = .null ∨ ∃ elements, leaf = .array elements)) ∧
    itemsDuplicates members [] [] = [] := by
  have hdistinct : ((memberLeaves members []).map Prod.fst).Nodup :=
    leaves_nodup (.object members) [] hkeys
  have hnew : ∀ leaf ∈ memberLeaves members [], leaf.1 ∉ ([] : Settings).map Prod.fst :=
    fun _ _ => List.not_mem_nil
  obtain ⟨hall, hnone⟩ := extractAll_of_distinct hnew hdistinct
  have hextract : extractConfigurationFromJson (.object members) [] [] = _ :=
    (extractItems_eq members [] []).trans hall
  rw [itemsDuplicates_eq, hextract]
  refine ⟨fun path stored => ?_, ?_, ?_, hnone⟩
  · rw [List.nil_append, List.mem_filterMap]
    constructor
    · rintro ⟨leaf, hleaf, hentry⟩
      obtain ⟨rfl, htagged⟩ := entry_eq_some_iff.mp hentry
      exact ⟨leaf.2, mem_memberLeaves_iff.mp hleaf, htagged⟩
    · rintro ⟨leaf, hleaf, htagged⟩
      exact ⟨(path, leaf), mem_memberLeaves_iff.mpr hleaf, entry_eq_some_iff.mpr ⟨rfl, htagged⟩⟩
  · rw [List.nil_append]
    exact (entry_paths_sublist _).nodup hdistinct
  · rw [List.all_eq_false]
    constructor
    · rintro ⟨leaf, hmem, hleaf⟩
      have hat := mem_memberLeaves_iff.mp hmem
      rw [configValue_isSome_iff hat.not_object, not_not] at hleaf
      exact ⟨leaf.1, leaf.2, hat, hleaf⟩
    · rintro ⟨path, leaf, hat, hleaf⟩
      refine ⟨(path, leaf), mem_memberLeaves_iff.mpr hat, ?_⟩
      rw [configValue_isSome_iff hat.not_object, not_not]
      exact hleaf

def mixed : Members :=
  [("a", .object [("b", .null), ("c", .unsigned 5)]), ("d", .string "e")]

theorem extractConfigurationFromJson_mixed :
    let extraction := extractConfigurationFromJson (.object mixed) [] []
    extraction.1 = false ∧ (["a", "c"], .long 5) ∈ extraction.2 ∧
      itemsDuplicates mixed [] [] = [] := by
  have hkeys : (Json.object mixed).distinctKeys = true := by decide
  have hnull : LeafAt (.object mixed) ["a", "b"] .null :=
    .under (.head _) (.under (.head _) (.here nofun))
  have hfive : LeafAt (.object mixed) ["a", "c"] (.unsigned 5) :=
    .under (.head _) (.under (.tail _ (.head _)) (.here nofun))
  obtain ⟨hentries, -, hfalse, hnone⟩ := extractConfigurationFromJson_exact hkeys
  exact ⟨hfalse.mpr ⟨_, _, hnull, .inl rfl⟩, (hentries _ _).mpr ⟨_, hfive, .unsigned 5⟩, hnone⟩

end Configuration

end MultiplexServer

import Mathlib.Data.List.Nodup

/-! The values of `nlohmann::json`, as the parser delivers them. A number keeps the
representation the parser chose; a double is the rational it denotes. The members
of an object stand in the order of its map. -/

namespace MultiplexServer

inductive Json where
  | null
  | boolean (value : Bool)
  | integer (value : Int64)
  | unsigned (value : UInt64)
  | float (value : Rat)
  | string (value : String)
  | array (elements : List Json)
  | object (members : List (String × Json))

namespace Json

abbrev Members := List (String × Json)

/-- `items()`: array elements go by their index, a scalar is one item without a key. -/
def items : Json → Members
  | .object members => members
  | .array elements => elements.zipIdx.map fun (value, i) => (toString i, value)
  | .null => []
  | value => [("", value)]

abbrev Path := List String

mutual

def leaves : Json → Path → List (Path × Json)
  | .object members, path => memberLeaves members path
  | value, path => [(path, value)]

def memberLeaves : Members → Path → List (Path × Json)
  | [], _ => []
  | member :: rest, path => pairLeaves member path ++ memberLeaves rest path

def pairLeaves : String × Json → Path → List (Path × Json)
  | (key, value), path => leaves value (path ++ [key])

end

def allLeaves (j : Json) : List (Path × Json) := memberLeaves j.items []

def paths (j : Json) : List Path := j.allLeaves.map Prod.fst

mutual

/-- The map behind an object has a key once; arrays are not looked into. -/
def distinctKeys : Json → Bool
  | .object members => (members.map Prod.fst).Nodup && membersDistinct members
  | _ => true

def membersDistinct : Members → Bool
  | [] => true
  | member :: rest => pairDistinct member && membersDistinct rest

def pairDistinct : String × Json → Bool
  | (_, value) => distinctKeys value

end

/-! ## Distinct keys give distinct paths -/

mutual

theorem leaves_prefix (value : Json) (path : Path) {leaf : Path × Json}
    (h : leaf ∈ leaves value path) : path <+: leaf.1 := by
  cases value with
  | object members =>
    rw [leaves] at h
    obtain ⟨member, -, hprefix⟩ := memberLeaves_prefix members path h
    exact (List.prefix_append path [member.1]).trans hprefix
  | null | boolean | integer | unsigned | float | string | array =>
    simp only [leaves, List.mem_singleton] at h
    exact h ▸ List.prefix_rfl

theorem memberLeaves_prefix (members : Members) (path : Path) {leaf : Path × Json}
    (h : leaf ∈ memberLeaves members path) :
    ∃ member ∈ members, path ++ [member.1] <+: leaf.1 := by
  cases members with
  | nil => cases h
  | cons member rest =>
    rw [memberLeaves, List.mem_append] at h
    rcases h with h | h
    · exact ⟨member, List.mem_cons_self, pairLeaves_prefix member path h⟩
    · obtain ⟨other, hother, hprefix⟩ := memberLeaves_prefix rest path h
      exact ⟨other, List.mem_cons_of_mem _ hother, hprefix⟩

theorem pairLeaves_prefix (member : String × Json) (path : Path) {leaf : Path × Json}
    (h : leaf ∈ pairLeaves member path) : path ++ [member.1] <+: leaf.1 := by
  cases member with
  | mk key value => exact leaves_prefix value (path ++ [key]) h

end

theorem key_of_prefix {path leaf : Path} {key key' : String} (h : path ++ [key] <+: leaf)
    (h' : path ++ [key'] <+: leaf) : key = key' := by
  have hsame := List.prefix_of_prefix_length_le h h' (by simp)
  have heq := hsame.eq_of_length (by simp)
  simpa using heq

mutual

theorem leaves_nodup (value : Json) (path : Path) (h : value.distinctKeys = true) :
    ((leaves value path).map Prod.fst).Nodup := by
  cases value with
  | object members =>
    simp only [distinctKeys, Bool.and_eq_true, decide_eq_true_eq] at h
    exact memberLeaves_nodup members path h.1 h.2
  | null | boolean | integer | unsigned | float | string | array =>
    exact List.nodup_singleton _

theorem memberLeaves_nodup (members : Members) (path : Path)
    (hkeys : (members.map Prod.fst).Nodup) (h : membersDistinct members = true) :
    ((memberLeaves members path).map Prod.fst).Nodup := by
  cases members with
  | nil => exact List.nodup_nil
  | cons member rest =>
    rw [List.map_cons, List.nodup_cons] at hkeys
    simp only [membersDistinct, Bool.and_eq_true] at h
    rw [memberLeaves, List.map_append, List.nodup_append']
    refine ⟨pairLeaves_nodup member path h.1, memberLeaves_nodup rest path hkeys.2 h.2, ?_⟩
    intro p hp hp'
    obtain ⟨leaf, hleaf, rfl⟩ := List.mem_map.mp hp
    obtain ⟨leaf', hleaf', hsame⟩ := List.mem_map.mp hp'
    obtain ⟨other, hother, hprefix⟩ := memberLeaves_prefix rest path hleaf'
    rw [hsame] at hprefix
    have hown := pairLeaves_prefix member path hleaf
    have hkey := key_of_prefix hown hprefix
    exact hkeys.1 (List.mem_map.mpr ⟨other, hother, hkey.symm⟩)

theorem pairLeaves_nodup (member : String × Json) (path : Path)
    (h : pairDistinct member = true) : ((pairLeaves member path).map Prod.fst).Nodup := by
  cases member with
  | mk key value => exact leaves_nodup value (path ++ [key]) h

end

end Json

end MultiplexServer

import MultiplexServer.Json
import MultiplexServer.Strings

/-! `c_datamodel_service::service_datamodel`: the ping that is bounced. The parser and
the printer of `nlohmann::json` are parameters. -/

namespace MultiplexServer

/-- The vendored library and the platform: parsing (nothing when it throws), printing,
and what the compiled code makes of an `int` operation whose exact result does not fit. -/
structure JsonLibrary where
  parse : Strings.Bytes → Option Json
  dump : Json → Strings.Bytes
  outOfRange : Int → Int
  dump_ne_nil : ∀ j, dump j ≠ []

namespace DatamodelService
open Strings

inductive DatamodelStatus where
  | none
  | ok
  | notOk
  deriving DecidableEq, Repr

def toInt32 (x : Int) : Int := (x + 2147483648) % 4294967296 - 2147483648

variable (lib : JsonLibrary)

def fitInt (exact : Int) : Int :=
  if intMin ≤ exact ∧ exact ≤ intMax then exact else lib.outOfRange exact

/-- `j[key]` on a value that is not constant: null turns into an object and a missing
member into null; anything else throws. What it inserts is dropped with the value. -/
def index (j : Json) (key : String) : Option Json :=
  match j with
  | .object members => some ((members.lookup key).getD .null)
  | .null => some .null
  | _ => none

def isNumber : Json → Bool
  | .integer _ | .unsigned _ | .float _ => true
  | _ => false

def getInt : Json → Option Int
  | .integer value => some (toInt32 value.toInt)
  | .unsigned value => some (toInt32 value.toNat)
  | .float value => some (fitInt lib (value.num.tdiv value.den))
  | _ => none

/-- `j[key] = value` for a member that exists. -/
def assign (j : Json) (key : String) (value : Json) : Json :=
  match j with
  | .object members =>
    .object (members.map fun member => if member.1 = key then (key, value) else member)
  | _ => j

/-- The try block: nothing when an exception leaves it, otherwise the result if the
field is a number. -/
def bounce (request : Bytes) : Option (Option Json) := do
  let j ← lib.parse request
  let body ← index j "body"
  let node ← index body "ping_id"
  if isNumber node then
    let pingId ← getInt lib node
    let next := Json.integer (Int64.ofInt (fitInt lib (pingId + 1)))
    return some (assign j "body" (assign body "ping_id" next))
  else return none

def messageBadRequest : Json := .object [("body", .string "invalid request")]

/-- `_result_buffer.str("")` -/
def clear (_resultBuffer : Bytes) : Bytes := []

def serviceDatamodel (resultBuffer request : Bytes) : DatamodelStatus × Bytes :=
  let resultBuffer := clear resultBuffer
  match bounce lib request with
  | some (some j) => (.ok, resultBuffer ++ lib.dump j)
  | some none => (.notOk, resultBuffer ++ lib.dump messageBadRequest)
  | none => (.notOk, resultBuffer ++ lib.dump messageBadRequest)

/-- The request is an object whose member `body` is an object with a number in `ping_id`. -/
def IsPing (request : Bytes) : Prop :=
  ∃ members body node, lib.parse request = some (.object members) ∧
    members.lookup "body" = some (.object body) ∧ body.lookup "ping_id" = some node ∧
    isNumber node = true

theorem serviceDatamodel_buffer (a b request : Bytes) :
    serviceDatamodel lib a request = serviceDatamodel lib b request := rfl

theorem serviceDatamodel_ne_nil (resultBuffer request : Bytes) :
    (serviceDatamodel lib resultBuffer request).2 ≠ [] := by
  unfold serviceDatamodel clear
  split <;> simpa using lib.dump_ne_nil _

theorem getInt_isSome {node : Json} (h : isNumber node = true) : (getInt lib node).isSome := by
  cases node with
  | integer | unsigned | float => rfl
  | null | boolean | string | array | object => cases h

theorem index_index_number {j body node : Json} {key key' : String} (h : index j key = some body)
    (h' : index body key' = some node) (hnumber : isNumber node = true) :
    ∃ members members', j = .object members ∧ members.lookup key = some (.object members') ∧
      members'.lookup key' = some node := by
  cases body with
  | object members' =>
    have hnode : members'.lookup key' = some node := by
      simp only [index, Option.some.injEq] at h'
      cases hlookup : members'.lookup key' with
      | none => rw [hlookup] at h'; subst h'; cases hnumber
      | some found => rw [hlookup] at h'; exact congrArg some h'
    cases j with
    | object members =>
      simp only [index, Option.some.injEq] at h
      cases hlookup : members.lookup key with
      | none => rw [hlookup] at h; cases h
      | some found =>
        rw [hlookup] at h
        exact ⟨members, members', rfl, by rw [← h]; exact hlookup, hnode⟩
    | null => cases h
    | boolean | integer | unsigned | float | string | array => cases h
  | null => cases h'; cases hnumber
  | boolean | integer | unsigned | float | string | array => cases h'

theorem serviceDatamodel_ok_iff (resultBuffer request : Bytes) :
    (serviceDatamodel lib resultBuffer request).1 = .ok ↔ IsPing lib request := by
  have hbounce : (serviceDatamodel lib resultBuffer request).1 = .ok ↔
      ∃ j, bounce lib request = some (some j) := by
    unfold serviceDatamodel
    split <;> simp [*]
  rw [hbounce]
  constructor
  · rintro ⟨result, h⟩
    simp only [bounce, Option.bind_eq_bind, Option.bind_eq_some_iff] at h
    obtain ⟨j, hparse, body, hbody, node, hnode, hrest⟩ := h
    split_ifs at hrest with hnumber
    · obtain ⟨members, members', rfl, hlookup, hlookup'⟩ := index_index_number hbody hnode hnumber
      exact ⟨members, members', node, hparse, hlookup, hlookup', hnumber⟩
    · cases hrest
  · rintro ⟨members, body, node, hparse, hbody, hnode, hnumber⟩
    obtain ⟨pingId, hint⟩ := Option.isSome_iff_exists.mp (getInt_isSome lib hnumber)
    refine ⟨assign (.object members) "body" (assign (.object body) "ping_id"
      (.integer (Int64.ofInt (fitInt lib (pingId + 1))))), ?_⟩
    simp [bounce, hparse, index, hbody, hnode, hnumber, hint]

end DatamodelService

end MultiplexServer

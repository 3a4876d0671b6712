import Mathlib.Algebra.Ring.Rat
import MultiplexServer.ServerConnections

/-! The number that comes back from a ping. The field may hold any JSON number, and it
passes through an `int` on its way to the response. -/

namespace MultiplexServer.DatamodelService
open Strings Json

variable (lib : JsonLibrary)

def numberValue : Json → Option Rat
  | .integer value => some value.toInt
  | .unsigned value => some value.toNat
  | .float value => some value
  | _ => none

/-- One member has another value; the keys and the other members are as before. -/
structure Replaces (key : String) (value : Json) (members members' : Members) : Prop where
  keys : members'.map Prod.fst = members.map Prod.fst
  here : members'.lookup key = some value
  others : ∀ other, other ≠ key → members'.lookup other = members.lookup other

def Increments (members body : Members) (node response : Json) : Prop :=
  ∃ members' body' next value, response = .object members' ∧
    Replaces "body" (.object body') members members' ∧ Replaces "ping_id" next body body' ∧
    numberValue node = some value ∧ numberValue next = some (value + 1)

structure PingWith (request : Bytes) (members body : Members) (node : Json) : Prop where
  parses : lib.parse request = some (.object members)
  hasBody : members.lookup "body" = some (.object body)
  hasPingId : body.lookup "ping_id" = some node
  hasNumber : isNumber node = true

/-- The request is answered OK exactly if it is a ping, then with its number one
greater, and the `int` in between has a successor. -/
structure BouncesIncremented (request : Bytes) : Prop where
  status : ∀ resultBuffer,
    (serviceDatamodel lib resultBuffer request).1 = .ok ↔ IsPing lib request
  response : ∀ members body node, PingWith lib request members body node →
    ∃ j, bounce lib request = some (some j) ∧ Increments members body node j ∧
      ∀ resultBuffer, (serviceDatamodel lib resultBuffer request).2 = lib.dump j
  noOverflow : ∀ members body node, PingWith lib request members body node →
    ∀ pingId, getInt lib node = some pingId → intMin ≤ pingId ∧ pingId < intMax

theorem replaces_assign {key : String} {old : Json} {members : Members}
    (h : members.lookup key = some old) (value : Json) :
    ∃ members', assign (.object members) key value = .object members' ∧
      Replaces key value members members' := by
  refine ⟨_, rfl, ⟨?_, ?_, ?_⟩⟩
  · rw [List.map_map]
    refine List.map_congr_left fun member _ => ?_
    by_cases hkey : member.1 = key
    · simp [hkey]
    · simp [hkey]
  · induction members with
    | nil => cases h
    | cons member members ih =>
      obtain ⟨name, found⟩ := member
      by_cases hname : name = key
      · simp [hname]
      · have hne : (key == name) = false := by simp [Ne.symm hname]
        rw [List.lookup_cons, hne] at h
        simp only [List.map_cons, hname, if_false, List.lookup_cons, hne]
        exact ih h
  · intro other hother
    clear h
    induction members with
    | nil => rfl
    | cons member members ih =>
      obtain ⟨name, found⟩ := member
      by_cases hname : name = key
      · have hne : (other == key) = false := by simp [hother]
        simp only [List.map_cons, hname, if_true, List.lookup_cons, hne]
        exact ih
      · simp only [List.map_cons, hname, if_false, List.lookup_cons, ih]

theorem bounce_ping {request : Bytes} {members body : Members} {node : Json} {pingId : Int}
    (h : PingWith lib request members body node) (hint : getInt lib node = some pingId) :
    bounce lib request = some (some (assign (.object members) "body"
      (assign (.object body) "ping_id" (.integer (Int64.ofInt (fitInt lib (pingId + 1))))))) := by
  simp [bounce, h.parses, index, h.hasBody, h.hasPingId, h.hasNumber, hint]

theorem getInt_eq {node : Json} {value : Int} (h : numberValue node = some (value : Rat))
    (hlow : intMin ≤ value) (hhigh : value < intMax) : getInt lib node = some value := by
  unfold intMin at hlow
  unfold intMax at hhigh
  cases node with
  | null | boolean | string | array | object => cases h
  | integer number =>
    have hsame : number.toInt = value := by
      simpa [numberValue] using h
    simp only [getInt, toInt32, hsame, Option.some.injEq]
    omega
  | unsigned number =>
    have hsame : (number.toNat : Int) = value := by
      have hrat : (number.toNat : Rat) = value := by simpa [numberValue] using h
      exact_mod_cast hrat
    simp only [getInt, toInt32, hsame, Option.some.injEq]
    omega
  | float number =>
    obtain rfl : number = value := by simpa [numberValue] using h
    have htrunc : (value : Rat).num.tdiv (value : Rat).den = value := by simp
    rw [getInt, htrunc, fitInt, if_pos ⟨by unfold intMin; omega, by unfold intMax; omega⟩]

theorem numberValue_next {pingId : Int} (hlow : intMin ≤ pingId) (hhigh : pingId < intMax) :
    numberValue (.integer (Int64.ofInt (fitInt lib (pingId + 1)))) = some ((pingId : Rat) + 1) := by
  unfold intMin at hlow
  unfold intMax at hhigh
  have hfits : fitInt lib (pingId + 1) = pingId + 1 :=
    if_pos ⟨by unfold intMin; omega, by unfold intMax; omega⟩
  rw [numberValue, hfits, Int64.toInt_ofInt_of_le (by omega) (by omega)]
  push_cast
  rfl

/-- A ping comes back incremented exactly when its number is an integer that has a
successor among the values of `int`. -/
theorem bouncesIncremented_iff (request : Bytes) :
    BouncesIncremented lib request ↔
      ∀ members body node, PingWith lib request members body node →
        ∃ value : Int, numberValue node = some (value : Rat) ∧
          intMin ≤ value ∧ value < intMax := by
  constructor
  · intro h members body node hping
    obtain ⟨pingId, hint⟩ := Option.isSome_iff_exists.mp (getInt_isSome lib hping.hasNumber)
    obtain ⟨hlow, hhigh⟩ := h.noOverflow members body node hping pingId hint
    obtain ⟨j, hbounce, ⟨members', body', next, value, rfl, hmembers, hbody, hvalue, hnext⟩, -⟩ :=
      h.response members body node hping
    rw [bounce_ping lib hping hint, Option.some.injEq, Option.some.injEq] at hbounce
    obtain ⟨body'', hassign, hbody''⟩ := replaces_assign hping.hasPingId
      (.integer (Int64.ofInt (fitInt lib (pingId + 1))))
    obtain ⟨members'', hassign', hmembers''⟩ := replaces_assign hping.hasBody (.object body'')
    rw [hassign, hassign'] at hbounce
    cases hbounce
    have hsame : body'' = body' := by
      have := hmembers''.here.symm.trans hmembers.here
      simpa using this
    subst hsame
    obtain rfl := Option.some.inj (hbody''.here.symm.trans hbody.here)
    rw [numberValue_next lib hlow hhigh, Option.some.injEq, add_left_inj] at hnext
    exact ⟨pingId, by rw [hvalue, hnext], hlow, hhigh⟩
  · intro h
    refine ⟨fun resultBuffer => serviceDatamodel_ok_iff lib resultBuffer request,
      fun members body node hping => ?_, fun members body node hping pingId hint => ?_⟩
    · obtain ⟨value, hvalue, hlow, hhigh⟩ := h members body node hping
      have hbounce := bounce_ping lib hping (getInt_eq lib hvalue hlow hhigh)
      obtain ⟨body', hassign, hbody⟩ := replaces_assign hping.hasPingId
        (.integer (Int64.ofInt (fitInt lib (value + 1))))
      obtain ⟨members', hassign', hmembers⟩ := replaces_assign hping.hasBody (.object body')
      rw [hassign, hassign'] at hbounce
      refine ⟨.object members', hbounce, ⟨members', body', _, value, rfl, hmembers, hbody, hvalue,
        numberValue_next lib hlow hhigh⟩, fun resultBuffer => ?_⟩
      simp [serviceDatamodel, hbounce, clear]
    · obtain ⟨value, hvalue, hlow, hhigh⟩ := h members body node hping
      rw [getInt_eq lib hvalue hlow hhigh, Option.some.injEq] at hint
      omega

def farLibrary : JsonLibrary :=
  { Server.pingLibrary with
    parse := fun request =>
      if request = Server.pingText 4294967296 then
        some (.object [("body", .object [("ping_id", .unsigned 4294967296)])])
      else none }

/-- The number 2^32 comes back as 1. -/
theorem far_ping_not_incremented :
    serviceDatamodel farLibrary [] (Server.pingText 4294967296) = (.ok, Server.pingText 1) ∧
    ¬ BouncesIncremented farLibrary (Server.pingText 4294967296) := by
  refine ⟨by decide, fun h => ?_⟩
  obtain ⟨value, hvalue, -, hhigh⟩ := (bouncesIncremented_iff farLibrary _).mp h
    [("body", .object [("ping_id", .unsigned 4294967296)])] [("ping_id", .unsigned 4294967296)]
    (.unsigned 4294967296) ⟨by simp [farLibrary], rfl, rfl, rfl⟩
  have hsame : (4294967296 : Int) = value := by
    have hrat : ((4294967296 : Nat) : Rat) = value := by simpa [numberValue] using hvalue
    exact_mod_cast hrat
  unfold intMax at hhigh
  omega

end MultiplexServer.DatamodelService

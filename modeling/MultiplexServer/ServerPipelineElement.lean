import Mathlib.Tactic.Common
import MultiplexServer.Strings

/-! `c_server_pipeline_element`: one request on its way through the stages. -/

namespace MultiplexServer
open Strings

inductive Stage where
  | request
  | datamodel
  | response
  | completed
  deriving DecidableEq, Repr

structure ServerPipelineElement where
  clientFd : Int
  isLocked : Bool
  lockedById : Nat
  isCloseConnectionRequired : Bool
  isCompletedFailed : Bool
  isDatamodelFailed : Bool
  isRequestFailed : Bool
  isResponseFailed : Bool
  isCompletedCompleted : Bool
  isDatamodelCompleted : Bool
  isRequestCompleted : Bool
  isResponseCompleted : Bool
  request : Bytes
  response : Bytes
  deriving DecidableEq, Repr

namespace ServerPipelineElement

def new (clientFd : Int) : ServerPipelineElement where
  clientFd
  isLocked := false
  lockedById := 0
  isCloseConnectionRequired := false
  isCompletedFailed := false
  isDatamodelFailed := false
  isRequestFailed := false
  isResponseFailed := false
  isCompletedCompleted := false
  isDatamodelCompleted := false
  isRequestCompleted := false
  isResponseCompleted := false
  request := []
  response := []

def lockedBy (objectId : Nat) (e : ServerPipelineElement) : ServerPipelineElement :=
  { e with isLocked := true, lockedById := objectId }

def lockWithOwnerLockable (e : ServerPipelineElement) (objectId : Nat) :
    Option ServerPipelineElement :=
  if e.isLocked then none else some (e.lockedBy objectId)

def unlock (e : ServerPipelineElement) : ServerPipelineElement :=
  { e with lockedById := 0, isLocked := false }

def markAsDatamodelFailed (e : ServerPipelineElement) : ServerPipelineElement :=
  { e with isDatamodelFailed := true }
def markAsRequestFailed (e : ServerPipelineElement) : ServerPipelineElement :=
  { e with isRequestFailed := true }
def markAsResponseFailed (e : ServerPipelineElement) : ServerPipelineElement :=
  { e with isResponseFailed := true }
def markAsDatamodelCompleted (e : ServerPipelineElement) : ServerPipelineElement :=
  { e with isDatamodelCompleted := true }
def markAsRequestCompleted (e : ServerPipelineElement) : ServerPipelineElement :=
  { e with isRequestCompleted := true }
def markAsResponseCompleted (e : ServerPipelineElement) : ServerPipelineElement :=
  { e with isResponseCompleted := true }
def markAsCompletedCompleted (e : ServerPipelineElement) : ServerPipelineElement :=
  { e with isCompletedCompleted := true }
def markAsCloseConnectionRequired (e : ServerPipelineElement) : ServerPipelineElement :=
  { e with isCloseConnectionRequired := true }

/-- The text of a stage is written once; an empty one counts as unwritten. -/
def setRequestString (e : ServerPipelineElement) (s : Bytes) : Option ServerPipelineElement :=
  if 0 < e.request.length then none else some { e with request := e.request ++ s }
def setResponseString (e : ServerPipelineElement) (s : Bytes) : Option ServerPipelineElement :=
  if 0 < e.response.length then none else some { e with response := e.response ++ s }

def isRequestCompletedPredicate (e : ServerPipelineElement) (ignoreCompleted : Bool) : Bool :=
  (ignoreCompleted && e.isRequestCompleted) || e.isRequestFailed

def isDatamodelCompletedPredicate (e : ServerPipelineElement) (ignoreCompleted : Bool) : Bool :=
  (ignoreCompleted && e.isDatamodelCompleted) || e.isDatamodelFailed ||
    e.isRequestCompletedPredicate false

def isResponseCompletedPredicate (e : ServerPipelineElement) (ignoreCompleted : Bool) : Bool :=
  (ignoreCompleted && e.isResponseCompleted) || e.isResponseFailed ||
    e.isDatamodelCompletedPredicate false

def isCompletedCompletedPredicate (e : ServerPipelineElement) : Bool := e.isCompletedCompleted

def completedPredicate (e : ServerPipelineElement) : Stage → Bool
  | .request => e.isRequestCompletedPredicate true
  | .datamodel => e.isDatamodelCompletedPredicate true
  | .response => e.isResponseCompletedPredicate true
  | .completed => e.isCompletedCompletedPredicate

end ServerPipelineElement

end MultiplexServer

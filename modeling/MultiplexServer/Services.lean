import MultiplexServer.DatamodelService
import MultiplexServer.NetworkReaderService
import MultiplexServer.NetworkWriterService
import MultiplexServer.ServerPipeline

/-! What the reader, datamodel and writer services do with an element once its work is
done: `publish_to_pipe` and the callbacks at the end of the iteration. Each outcome
comes down to one push into one pipe and one change of the element. -/

namespace MultiplexServer
open Strings ServerPipeline

namespace NetworkReaderService

def publishToDatamodelPipe (p : ServerPipeline) (objectId : Nat) (r : Ref)
    (resultBuffer : Bytes) : Published :=
  match (p.elements r).setRequestString resultBuffer with
  | none => ⟨p, false, false⟩
  | some e =>
    let published := (p.modify r fun _ => e).publishToDatamodelPipe objectId r
    ⟨published.2, published.1, published.1⟩

def publishToPipe (status : NetworkReaderStatus) (p : ServerPipeline) (objectId : Nat) (r : Ref)
    (resultBuffer : Bytes) : Published :=
  match status with
  | .ok => publishToDatamodelPipe p objectId r resultBuffer
  | .none | .messageTooLong | .messageBiggerThanHeaderValue | .headerInvalid | .headerMissing
  | .networkError | .networkTooManyReads | .systemError | .systemExit | .connectionClosed =>
    p.publishToPipeNotOk objectId r

end NetworkReaderService

namespace DatamodelService

def publishToResponsePipe (p : ServerPipeline) (objectId : Nat) (r : Ref)
    (resultBuffer : Bytes) : Published :=
  match (p.elements r).setResponseString resultBuffer with
  | none => ⟨p, false, false⟩
  | some e =>
    let published := (p.modify r fun _ => e).publishToResponsePipe objectId r
    ⟨published.2, published.1, published.1⟩

def publishToPipe (status : DatamodelStatus) (p : ServerPipeline) (objectId : Nat) (r : Ref)
    (resultBuffer : Bytes) : Published :=
  match status with
  | .ok => publishToResponsePipe p objectId r resultBuffer
  | .none | .notOk => p.publishToPipeNotOk objectId r

end DatamodelService

namespace NetworkWriterService

def publishToCompletedPipe (p : ServerPipeline) (objectId : Nat) (r : Ref) : Published :=
  let published := p.publishToCompletedPipe objectId r
  ⟨published.2, published.1, published.1⟩

def publishToPipe (status : NetworkWriterStatus) (p : ServerPipeline) (objectId : Nat)
    (r : Ref) : Published :=
  match status with
  | .ok => publishToCompletedPipe p objectId r
  | .none | .networkError | .systemError | .systemExit => p.publishToPipeNotOk objectId r

end NetworkWriterService

/-! ## The outcomes -/

namespace ServerPipelineElement

def Free (e : ServerPipelineElement) : Prop := e.isLocked = false ∧ e.lockedById = 0

theorem Free.unlock_lockedBy {e : ServerPipelineElement} (h : e.Free) (objectId : Nat) :
    (e.lockedBy objectId).unlock = e := by
  obtain ⟨hlocked, hid⟩ := h
  rw [unlock, lockedBy, ← hlocked, ← hid]

def read (payload : Bytes) (e : ServerPipelineElement) : ServerPipelineElement :=
  { e with request := payload, isRequestCompleted := true }

def compute (result : Bytes) (e : ServerPipelineElement) : ServerPipelineElement :=
  { e with response := result, isDatamodelCompleted := true }

def write (e : ServerPipelineElement) : ServerPipelineElement :=
  { e with isResponseCompleted := true }

/-- A stage gave up: the pipeline marks the response as completed all the same. -/
def abandon (markAsFailed : ServerPipelineElement → ServerPipelineElement)
    (e : ServerPipelineElement) : ServerPipelineElement :=
  markAsFailed { e with isCloseConnectionRequired := true, isResponseCompleted := true }

end ServerPipelineElement

section Outcomes

variable {p : ServerPipeline} {r : Ref} (objectId : Nat)

theorem leave_reader_ok (hfree : (p.elements r).Free) (hrequest : (p.elements r).request = [])
    (payload : Bytes) :
    (NetworkReaderService.publishToPipe .ok (p.modify r (.lockedBy objectId)) objectId r
        payload).leave r .markAsRequestFailed =
      (p.push .datamodel r).modify r (.read payload) := by
  have hset : ((p.modify r (.lockedBy objectId)).elements r).setRequestString payload =
      some { (p.elements r).lockedBy objectId with request := payload } := by
    simp [ServerPipelineElement.setRequestString, ServerPipelineElement.lockedBy, hrequest]
  simp only [NetworkReaderService.publishToPipe, NetworkReaderService.publishToDatamodelPipe, hset]
  rw [publishToDatamodelPipe, publishTo_owned (by simp [ServerPipelineElement.lockedBy])]
  simp only [Published.leave, if_true, push_modify, modify_modify]
  apply modify_congr
  exact congrArg (ServerPipelineElement.read payload) (hfree.unlock_lockedBy objectId)

theorem leave_datamodel_ok (hfree : (p.elements r).Free)
    (hresponse : (p.elements r).response = []) (result : Bytes) :
    (DatamodelService.publishToPipe .ok (p.modify r (.lockedBy objectId)) objectId r
        result).leave r .markAsDatamodelFailed =
      (p.push .response r).modify r (.compute result) := by
  have hset : ((p.modify r (.lockedBy objectId)).elements r).setResponseString result =
      some { (p.elements r).lockedBy objectId with response := result } := by
    simp [ServerPipelineElement.setResponseString, ServerPipelineElement.lockedBy, hresponse]
  simp only [DatamodelService.publishToPipe, DatamodelService.publishToResponsePipe, hset]
  rw [publishToResponsePipe, publishTo_owned (by simp [ServerPipelineElement.lockedBy])]
  simp only [Published.leave, if_true, push_modify, modify_modify]
  apply modify_congr
  exact congrArg (ServerPipelineElement.compute result) (hfree.unlock_lockedBy objectId)

theorem leave_writer_ok (hfree : (p.elements r).Free) :
    (NetworkWriterService.publishToPipe .ok (p.modify r (.lockedBy objectId)) objectId
        r).leave r .markAsResponseFailed =
      (p.push .completed r).modify r .write := by
  simp only [NetworkWriterService.publishToPipe, NetworkWriterService.publishToCompletedPipe]
  rw [ServerPipeline.publishToCompletedPipe,
    publishTo_owned (by simp [ServerPipelineElement.lockedBy])]
  simp only [Published.leave, if_true, push_modify, modify_modify]
  apply modify_congr
  exact congrArg ServerPipelineElement.write (hfree.unlock_lockedBy objectId)

theorem leave_not_ok (hfree : (p.elements r).Free)
    {markAsFailed : ServerPipelineElement → ServerPipelineElement}
    (hmark : ∀ e, (markAsFailed e).unlock = markAsFailed e.unlock) :
    ((p.modify r (.lockedBy objectId)).publishToPipeNotOk objectId r).leave r markAsFailed =
      (p.push .completed r).modify r (.abandon markAsFailed) := by
  rw [publishToPipeNotOk, publishToCompletedPipe,
    publishTo_owned (by simp [ServerPipelineElement.lockedBy,
      ServerPipelineElement.markAsCloseConnectionRequired])]
  simp only [Published.leave, Bool.false_eq_true, if_false, push_modify, modify_modify]
  apply modify_congr
  simp only [Function.comp_apply, hmark]
  exact congrArg (ServerPipelineElement.abandon markAsFailed) (hfree.unlock_lockedBy objectId)

theorem leave_reader (hfree : (p.elements r).Free) (hrequest : (p.elements r).request = [])
    (status : NetworkReaderService.NetworkReaderStatus) (payload : Bytes) :
    (NetworkReaderService.publishToPipe status (p.modify r (.lockedBy objectId)) objectId r
        payload).leave r .markAsRequestFailed =
      (p.push (if status = .ok then .datamodel else .completed) r).modify r fun e =>
        if status = .ok then e.read payload else e.abandon .markAsRequestFailed := by
  cases status with
  | ok => exact leave_reader_ok objectId hfree hrequest payload
  | none | messageTooLong | messageBiggerThanHeaderValue | headerInvalid | headerMissing
  | networkError | networkTooManyReads | systemError | connectionClosed | systemExit =>
    exact leave_not_ok objectId hfree fun _ => rfl

theorem leave_datamodel (hfree : (p.elements r).Free)
    (hresponse : (p.elements r).response = []) (status : DatamodelService.DatamodelStatus)
    (result : Bytes) :
    (DatamodelService.publishToPipe status (p.modify r (.lockedBy objectId)) objectId r
        result).leave r .markAsDatamodelFailed =
      (p.push (if status = .ok then .response else .completed) r).modify r fun e =>
        if status = .ok then e.compute result else e.abandon .markAsDatamodelFailed := by
  cases status with
  | ok => exact leave_datamodel_ok objectId hfree hresponse result
  | none | notOk => exact leave_not_ok objectId hfree fun _ => rfl

theorem leave_writer (hfree : (p.elements r).Free)
    (status : NetworkWriterService.NetworkWriterStatus) :
    (NetworkWriterService.publishToPipe status (p.modify r (.lockedBy objectId)) objectId
        r).leave r .markAsResponseFailed =
      (p.push .completed r).modify r fun e =>
        if status = .ok then e.write else e.abandon .markAsResponseFailed := by
  cases status with
  | ok => exact leave_writer_ok objectId hfree
  | none | networkError | systemError | systemExit =>
    exact leave_not_ok objectId hfree fun _ => rfl

end Outcomes

end MultiplexServer

import MultiplexServer.Server

/-! The life of one element, told without pipes, locks and workers: which visits may
follow one another and what each leaves behind. `place` is the stage that is next. -/

namespace MultiplexServer
open Strings NetworkReaderService NetworkWriterService DatamodelService

namespace Stage

def rank : Stage → Nat
  | .request => 0
  | .datamodel => 1
  | .response => 2
  | .completed => 3

theorem rank_injective : Function.Injective rank := by
  intro a b h
  cases a <;> cases b <;> first | rfl | cases h

end Stage

namespace ServerPipelineElement

def place (e : ServerPipelineElement) : Option Stage :=
  if e.isCompletedCompleted then none
  else if e.isResponseCompleted then some .completed
  else if e.isDatamodelCompleted then some .response
  else if e.isRequestCompleted then some .datamodel
  else some .request

def rank (e : ServerPipelineElement) : Nat := (e.place.map Stage.rank).getD 4

variable {e : ServerPipelineElement}

theorem rank_of_place {stage : Stage} (h : e.place = some stage) : e.rank = stage.rank := by
  rw [rank, h]
  rfl

theorem place_of_rank {stage : Stage} (h : e.rank = stage.rank) : e.place = some stage := by
  unfold rank at h
  cases hplace : e.place with
  | none =>
    rw [hplace] at h
    cases stage <;> cases h
  | some other =>
    rw [hplace] at h
    rw [Stage.rank_injective h]

theorem place_new (fd : Int) : (new fd).place = some .request := rfl

theorem place_read (h : e.place = some .request) (payload : Bytes) :
    (e.read payload).place = some .datamodel := by
  unfold place at h
  split_ifs at h <;> simp_all [place, read]

theorem place_compute (h : e.place = some .datamodel) (result : Bytes) :
    (e.compute result).place = some .response := by
  unfold place at h
  split_ifs at h <;> simp_all [place, compute]

theorem place_write (h : e.place = some .response) : e.write.place = some .completed := by
  unfold place at h
  split_ifs at h <;> simp_all [place, write]

theorem place_abandon {stage : Stage} (h : e.place = some stage)
    {markAsFailed : ServerPipelineElement → ServerPipelineElement}
    (hmark : ∀ e, (markAsFailed e).isCompletedCompleted = e.isCompletedCompleted ∧
      (markAsFailed e).isResponseCompleted = e.isResponseCompleted) :
    (e.abandon markAsFailed).place = some .completed := by
  unfold place at h
  split_ifs at h <;> simp_all [place, abandon]

theorem place_markAsCompletedCompleted : e.markAsCompletedCompleted.place = none := rfl

end ServerPipelineElement

open ServerPipelineElement

namespace Visit

def stage : Visit → Stage
  | .read .. => .request
  | .compute .. => .datamodel
  | .write .. => .response
  | .complete .. => .completed

def target : Visit → Stage
  | .read _ _ _ status _ => if status = .ok then .datamodel else .completed
  | .compute status _ => if status = .ok then .response else .completed
  | .write .. | .complete .. => .completed

def effect : Visit → ServerPipelineElement → ServerPipelineElement
  | .read _ _ _ status payload, e =>
    if status = .ok then e.read payload else e.abandon .markAsRequestFailed
  | .compute status result, e =>
    if status = .ok then e.compute result else e.abandon .markAsDatamodelFailed
  | .write _ _ _ _ status _, e => if status = .ok then e.write else e.abandon .markAsResponseFailed
  | .complete .., e => e.markAsCompletedCompleted

def UnderWay (visit : Visit) : Prop :=
  ∀ taken connection isOpen, visit ≠ .complete taken connection isOpen

theorem UnderWay.later {visit : Visit} (h : visit.UnderWay) :
    visit.stage.rank < visit.target.rank := by
  cases visit with
  | read fd setsockopt events status payload =>
    simp only [stage, target]
    split_ifs <;> decide
  | compute status result =>
    simp only [stage, target]
    split_ifs <;> decide
  | write => exact Nat.lt_succ_self 2
  | complete taken connection isOpen => exact absurd rfl (h taken connection isOpen)

theorem UnderWay.place_effect {visit : Visit} (h : visit.UnderWay) {e : ServerPipelineElement}
    (here : e.place = some visit.stage) : (visit.effect e).place = some visit.target := by
  cases visit with
  | read fd setsockopt events status payload =>
    simp only [effect, target]
    split_ifs
    · exact place_read here payload
    · exact place_abandon here fun _ => ⟨rfl, rfl⟩
  | compute status result =>
    simp only [effect, target]
    split_ifs
    · exact place_compute here result
    · exact place_abandon here fun _ => ⟨rfl, rfl⟩
  | write fd setsockopt response events status accepted =>
    simp only [effect, target]
    split_ifs
    · exact place_write here
    · exact place_abandon here fun _ => ⟨rfl, rfl⟩
  | complete taken connection isOpen => exact absurd rfl (h taken connection isOpen)

end Visit

/-- How an element came to be what it is, starting from its descriptor. -/
inductive Life (cfg : ServerConfig) (fd : Int) : List Visit → ServerPipelineElement → Prop where
  | created : Life cfg fd [] (.new fd)
  | read {log : List Visit} {e : ServerPipelineElement} {setsockopt : Int}
      {events : List RecvEvent} {status : NetworkReaderStatus} {reader : Reader cfg.reader}
      (before : Life cfg fd log e) (here : e.place = some .request)
      (done : serviceRead cfg.reader default setsockopt events = some (.ok (status, reader))) :
      Life cfg fd (log ++ [.read fd setsockopt events status reader.resultBuffer])
        (if status = .ok then e.read reader.resultBuffer else e.abandon .markAsRequestFailed)
  | compute {log : List Visit} {e : ServerPipelineElement} {status : DatamodelStatus}
      {result : Bytes} (before : Life cfg fd log e) (here : e.place = some .datamodel)
      (done : serviceDatamodel cfg.lib [] e.request = (status, result)) :
      Life cfg fd (log ++ [.compute status result])
        (if status = .ok then e.compute result else e.abandon .markAsDatamodelFailed)
  | write {log : List Visit} {e : ServerPipelineElement} {setsockopt : Int}
      {events : List SendEvent} {status : NetworkWriterStatus} {accepted : Bytes}
      (before : Life cfg fd log e) (here : e.place = some .response)
      (done : serviceWrite cfg.writer e.response setsockopt events = some (status, accepted)) :
      Life cfg fd (log ++ [.write fd setsockopt e.response events status accepted])
        (if status = .ok then e.write else e.abandon .markAsResponseFailed)
  | complete {log : List Visit} {e : ServerPipelineElement}
      {connection : Option NetworkConnection} {isOpen : Bool}
      (before : Life cfg fd log e) (here : e.place = some .completed) :
      Life cfg fd (log ++ [.complete e connection isOpen]) e.markAsCompletedCompleted

namespace Life

variable {cfg : ServerConfig} {fd : Int} {log : List Visit} {e : ServerPipelineElement}

theorem place_after_read (here : e.place = some .request) {status : NetworkReaderStatus}
    {payload : Bytes} {place : Option Stage}
    (h : (if status = .ok then e.read payload else e.abandon .markAsRequestFailed).place = place) :
    status = .ok ∧ place = some .datamodel ∨ status ≠ .ok ∧ place = some .completed := by
  split_ifs at h with hok
  · exact .inl ⟨hok, h ▸ place_read here payload⟩
  · exact .inr ⟨hok, h ▸ place_abandon here fun _ => ⟨rfl, rfl⟩⟩

theorem place_after_compute (here : e.place = some .datamodel) {status : DatamodelStatus}
    {result : Bytes} {place : Option Stage}
    (h : (if status = .ok then e.compute result
      else e.abandon .markAsDatamodelFailed).place = place) :
    status = .ok ∧ place = some .response ∨ status ≠ .ok ∧ place = some .completed := by
  split_ifs at h with hok
  · exact .inl ⟨hok, h ▸ place_compute here result⟩
  · exact .inr ⟨hok, h ▸ place_abandon here fun _ => ⟨rfl, rfl⟩⟩

theorem place_after_write (here : e.place = some .response) {status : NetworkWriterStatus}
    {place : Option Stage}
    (h : (if status = .ok then e.write else e.abandon .markAsResponseFailed).place = place) :
    place = some .completed := by
  split_ifs at h
  · exact h ▸ place_write here
  · exact h ▸ place_abandon here fun _ => ⟨rfl, rfl⟩

/-! ## What an element looks like at each stage -/

theorem at_request (h : Life cfg fd log e) (hplace : e.place = some .request) :
    log = [] ∧ e = .new fd := by
  cases h with
  | created => exact ⟨rfl, rfl⟩
  | read before here done =>
    rcases place_after_read here hplace with ⟨-, h⟩ | ⟨-, h⟩ <;> cases h
  | compute before here done =>
    rcases place_after_compute here hplace with ⟨-, h⟩ | ⟨-, h⟩ <;> cases h
  | write before here sent => cases place_after_write here hplace
  | complete before here => cases hplace

def Read (cfg : ServerConfig) (fd : Int) (payload : Bytes) (visit : Visit) : Prop :=
  ∃ setsockopt events reader, visit = .read fd setsockopt events .ok payload ∧
    serviceRead cfg.reader default setsockopt events = some (.ok (.ok, reader)) ∧
    payload = reader.resultBuffer

theorem at_datamodel (h : Life cfg fd log e) (hplace : e.place = some .datamodel) :
    ∃ payload visit, Read cfg fd payload visit ∧ log = [visit] ∧ e = (new fd).read payload := by
  cases h with
  | created => cases hplace
  | read before here done =>
    rcases place_after_read here hplace with ⟨rfl, -⟩ | ⟨-, h⟩
    · obtain ⟨rfl, rfl⟩ := before.at_request here
      exact ⟨_, _, ⟨_, _, _, rfl, done, rfl⟩, rfl, rfl⟩
    · cases h
  | compute before here done =>
    rcases place_after_compute here hplace with ⟨-, h⟩ | ⟨-, h⟩ <;> cases h
  | write before here sent => cases place_after_write here hplace
  | complete before here => cases hplace

theorem at_response (h : Life cfg fd log e) (hplace : e.place = some .response) :
    ∃ payload visit result, Read cfg fd payload visit ∧
      serviceDatamodel cfg.lib [] payload = (.ok, result) ∧
      log = [visit, .compute .ok result] ∧ e = ((new fd).read payload).compute result := by
  cases h with
  | created => cases hplace
  | read before here done =>
    rcases place_after_read here hplace with ⟨-, h⟩ | ⟨-, h⟩ <;> cases h
  | compute before here done =>
    rcases place_after_compute here hplace with ⟨rfl, -⟩ | ⟨-, h⟩
    · obtain ⟨payload, visit, hread, rfl, rfl⟩ := before.at_datamodel here
      exact ⟨payload, visit, _, hread, done, rfl, rfl⟩
    · cases h
  | write before here sent => cases place_after_write here hplace
  | complete before here => cases hplace

/-- The four ways into the completed pipe. -/
inductive Settled (cfg : ServerConfig) (fd : Int) :
    List Visit → ServerPipelineElement → Prop where
  | unread (setsockopt : Int) (events : List RecvEvent) (status : NetworkReaderStatus)
      (payload : Bytes) (failed : status ≠ .ok) :
      Settled cfg fd [.read fd setsockopt events status payload]
        ((new fd).abandon .markAsRequestFailed)
  | uncomputed {payload : Bytes} {visit : Visit} (read : Read cfg fd payload visit)
      {status : DatamodelStatus} {result : Bytes}
      (done : serviceDatamodel cfg.lib [] payload = (status, result)) (failed : status ≠ .ok) :
      Settled cfg fd [visit, .compute status result]
        (((new fd).read payload).abandon .markAsDatamodelFailed)
  | unwritten {payload : Bytes} {visit : Visit} (read : Read cfg fd payload visit)
      {result : Bytes} (done : serviceDatamodel cfg.lib [] payload = (.ok, result))
      {setsockopt : Int} {events : List SendEvent} {status : NetworkWriterStatus}
      {accepted : Bytes}
      (sent : serviceWrite cfg.writer result setsockopt events = some (status, accepted))
      (failed : status ≠ .ok) :
      Settled cfg fd
        [visit, .compute .ok result, .write fd setsockopt result events status accepted]
        ((((new fd).read payload).compute result).abandon .markAsResponseFailed)
  | written {payload : Bytes} {visit : Visit} (read : Read cfg fd payload visit)
      {result : Bytes} (done : serviceDatamodel cfg.lib [] payload = (.ok, result))
      {setsockopt : Int} {events : List SendEvent} {accepted : Bytes}
      (sent : serviceWrite cfg.writer result setsockopt events = some (.ok, accepted)) :
      Settled cfg fd [visit, .compute .ok result, .write fd setsockopt result events .ok accepted]
        (((new fd).read payload).compute result).write

theorem at_completed (h : Life cfg fd log e) (hplace : e.place = some .completed) :
    Settled cfg fd log e := by
  cases h with
  | created => cases hplace
  | read before here done =>
    rcases place_after_read here hplace with ⟨-, h⟩ | ⟨hfailed, -⟩
    · cases h
    · obtain ⟨rfl, rfl⟩ := before.at_request here
      rw [if_neg hfailed]
      exact .unread _ _ _ _ hfailed
  | compute before here done =>
    rcases place_after_compute here hplace with ⟨-, h⟩ | ⟨hfailed, -⟩
    · cases h
    · obtain ⟨payload, visit, hread, rfl, rfl⟩ := before.at_datamodel here
      rw [if_neg hfailed]
      exact .uncomputed hread done hfailed
  | @write _ _ _ _ status _ before here sent =>
    obtain ⟨payload, visit, result, hread, hdone, rfl, rfl⟩ := before.at_response here
    by_cases hok : status = .ok
    · subst hok
      exact .written hread hdone sent
    · rw [if_neg hok]
      exact .unwritten hread hdone sent hok
  | complete before here => cases hplace

theorem at_end (h : Life cfg fd log e) (hplace : e.place = none) :
    ∃ log' e' connection isOpen, Settled cfg fd log' e' ∧
      log = log' ++ [.complete e' connection isOpen] ∧ e = e'.markAsCompletedCompleted := by
  cases h with
  | created => cases hplace
  | read before here done =>
    rcases place_after_read here hplace with ⟨-, h⟩ | ⟨-, h⟩ <;> cases h
  | compute before here done =>
    rcases place_after_compute here hplace with ⟨-, h⟩ | ⟨-, h⟩ <;> cases h
  | write before here sent => cases place_after_write here hplace
  | complete before here => exact ⟨_, _, _, _, before.at_completed here, rfl, rfl⟩

/-! ## What holds at every stage -/

theorem induct {P : ServerPipelineElement → Prop} (h : Life cfg fd log e)
    (created : P (new fd)) (read : ∀ payload, P ((new fd).read payload))
    (computed : ∀ payload result, P (((new fd).read payload).compute result))
    (settled : ∀ log e, Settled cfg fd log e → P e ∧ P e.markAsCompletedCompleted) : P e := by
  cases hplace : e.place with
  | none =>
    obtain ⟨log', e', -, -, hsettled, -, rfl⟩ := h.at_end hplace
    exact (settled log' e' hsettled).2
  | some stage =>
    cases stage with
    | request =>
      obtain ⟨-, rfl⟩ := h.at_request hplace
      exact created
    | datamodel =>
      obtain ⟨payload, -, -, -, rfl⟩ := h.at_datamodel hplace
      exact read payload
    | response =>
      obtain ⟨payload, -, result, -, -, -, rfl⟩ := h.at_response hplace
      exact computed payload result
    | completed => exact (settled log e (h.at_completed hplace)).1

theorem completedPredicate_eq (h : Life cfg fd log e) (stage : Stage) :
    e.completedPredicate stage = decide (stage.rank < e.rank) := by
  apply h.induct (P := fun e => e.completedPredicate stage = decide (stage.rank < e.rank))
  · cases stage <;> rfl
  · intro payload
    cases stage <;> rfl
  · intro payload result
    cases stage <;> rfl
  · intro log e hsettled
    cases hsettled <;> cases stage <;> exact ⟨rfl, rfl⟩

theorem completedPredicate_eq_false_iff (h : Life cfg fd log e) (stage : Stage) :
    e.completedPredicate stage = false ↔ e.rank ≤ stage.rank := by
  rw [h.completedPredicate_eq, decide_eq_false_iff_not, not_lt]

theorem clientFd (h : Life cfg fd log e) : e.clientFd = fd := by
  apply h.induct (P := fun e => e.clientFd = fd) rfl (fun _ => rfl) (fun _ _ => rfl)
  intro log e hsettled
  cases hsettled <;> exact ⟨rfl, rfl⟩

theorem free (h : Life cfg fd log e) : e.Free := by
  apply h.induct (P := Free) ⟨rfl, rfl⟩ (fun _ => ⟨rfl, rfl⟩) (fun _ _ => ⟨rfl, rfl⟩)
  intro log e hsettled
  cases hsettled <;> exact ⟨⟨rfl, rfl⟩, ⟨rfl, rfl⟩⟩

end Life

end MultiplexServer

import MultiplexServer.NetworkReaderFraming
import MultiplexServer.ServerVerdicts

/-! What the clients are sent: a response that follows from the bytes of its own
request, as far as the calls of `send` get, and none for a request that is no ping. -/

namespace MultiplexServer
open Strings NetworkReaderService NetworkWriterService DatamodelService ServerPipelineElement

def writes (log : List Visit) : List Bytes :=
  log.filterMap fun
    | .write _ _ response _ _ _ => some response
    | _ => none

def sends (log : List Visit) : List Bytes :=
  log.filterMap fun
    | .write _ _ _ _ _ accepted => some accepted
    | _ => none

namespace Life

variable {cfg : ServerConfig} {fd : Int} {log : List Visit} {e : ServerPipelineElement}

theorem Settled.of_write (h : Settled cfg fd log e) {fd' setsockopt : Int} {response : Bytes}
    {events : List SendEvent} {status : NetworkWriterStatus} {accepted : Bytes}
    (hmem : .write fd' setsockopt response events status accepted ∈ log) :
    serviceWrite cfg.writer response setsockopt events = some (status, accepted) ∧
    ∃ payload visit rest, fd' = fd ∧ Read cfg fd payload visit ∧
      serviceDatamodel cfg.lib [] payload = (.ok, response) ∧ log = visit :: rest ∧
      ∀ other ∈ rest, other.stage ≠ .request := by
  cases h with
  | unread => simp at hmem
  | uncomputed read done failed =>
    obtain ⟨_, _, _, rfl, -⟩ := read
    simp at hmem
  | unwritten read done sent | written read done sent =>
    obtain ⟨setsockopt, events, reader, rfl, hdone⟩ := read
    simp only [List.mem_cons, List.not_mem_nil, or_false, reduceCtorEq, false_or,
      Visit.write.injEq] at hmem
    obtain ⟨rfl, rfl, rfl, rfl, rfl, rfl⟩ := hmem
    exact ⟨sent, _, _, _, rfl, ⟨setsockopt, events, reader, rfl, hdone⟩, done, rfl,
      by simp [Visit.stage]⟩

theorem of_write (h : Life cfg fd log e) {fd' setsockopt : Int} {response : Bytes}
    {events : List SendEvent} {status : NetworkWriterStatus} {accepted : Bytes}
    (hmem : .write fd' setsockopt response events status accepted ∈ log) :
    serviceWrite cfg.writer response setsockopt events = some (status, accepted) ∧
    ∃ payload visit rest, fd' = fd ∧ Read cfg fd payload visit ∧
      serviceDatamodel cfg.lib [] payload = (.ok, response) ∧ log = visit :: rest ∧
      ∀ other ∈ rest, other.stage ≠ .request := by
  obtain ⟨log', e', hsettled, rfl | ⟨connection, isOpen, rfl⟩⟩ :=
    h.settled_of_late hmem (.inl rfl)
  · exact hsettled.of_write hmem
  · have hwrite : .write fd' setsockopt response events status accepted ∈ log' := by
      simpa using hmem
    obtain ⟨hsent, payload, visit, rest, hfd, hread, hdone, rfl, hrest⟩ :=
      hsettled.of_write hwrite
    refine ⟨hsent, payload, visit, rest ++ [_], hfd, hread, hdone, rfl, ?_⟩
    intro other hother
    rcases List.mem_append.mp hother with hother | hother
    · exact hrest other hother
    · cases List.mem_singleton.mp hother
      exact Stage.noConfusion

theorem Read.payload_eq {payload payload' : Bytes} {visit : Visit} (h : Read cfg fd payload visit)
    {rest : List Visit} (hrest : ∀ other ∈ rest, other.stage ≠ .request) {fd' setsockopt : Int}
    {events : List RecvEvent} (hmem : .read fd' setsockopt events .ok payload' ∈ visit :: rest) :
    payload' = payload := by
  obtain ⟨_, _, _, rfl, -⟩ := h
  rcases List.mem_cons.mp hmem with heq | hlater
  · cases heq
    rfl
  · exact absurd rfl (hrest _ hlater)

end Life

namespace Server

variable {cfg : ServerConfig} {s s' : Server cfg} {r r' : Ref}

def payloadOf (cfg : ServerConfig) (events : List RecvEvent) : Bytes :=
  (received cfg.reader events).drop cfg.reader.protocolHeaderSizeLength

/-- The response is the result for what one reader has read on this descriptor for this
element, whatever the workers had in their buffers. -/
structure Answers (cfg : ServerConfig) (log : List Visit) (fd : Int) (response : Bytes)
    (pre post : List RecvEvent) : Prop where
  read : .read fd 0 (pre ++ .error :: post) .ok (payloadOf cfg pre) ∈ log
  last : LastRetry cfg.reader pre
  extracted : ∀ service, ∃ out, serviceRead cfg.reader service 0 (pre ++ .error :: post) =
    some (.ok (.ok, out)) ∧ out.resultBuffer = payloadOf cfg pre
  computed : ∀ buffer, DatamodelService.serviceDatamodel cfg.lib buffer (payloadOf cfg pre) =
    (.ok, response)
  only : ∀ visit ∈ log, visit.stage = .request →
    visit = .read fd 0 (pre ++ .error :: post) .ok (payloadOf cfg pre)

theorem setsockopt_of_ok {reader : Reader cfg.reader} {setsockopt : Int}
    {events : List RecvEvent}
    (h : serviceRead cfg.reader default setsockopt events = some (.ok (.ok, reader))) :
    setsockopt = 0 := by
  by_contra hne
  rw [serviceRead, if_pos hne] at h
  cases h

theorem answers_of_write (h : (machine cfg).Reachable s) {fd setsockopt : Int} {response : Bytes}
    {events : List SendEvent} {status : NetworkWriterStatus} {accepted : Bytes}
    (hmem : .write fd setsockopt response events status accepted ∈ s.log r) :
    ∃ pre post, Answers cfg (s.log r) fd response pre post := by
  have hlife := (inv_of_reachable h).life_of_mem hmem
  obtain ⟨-, payload, visit, rest, rfl, ⟨setsockopt, events, reader, rfl, hdone, rfl⟩, hcomputed,
    hlog, hrest⟩ := hlife.of_write hmem
  obtain rfl := setsockopt_of_ok hdone
  obtain ⟨pre, post, rfl, hlast, -, hpayload⟩ := serviceRead_ok cfg.reader hdone
  rw [hlog, hpayload]
  refine ⟨pre, post, List.mem_cons_self, hlast, fun service => ?_, fun buffer => ?_, ?_⟩
  · exact ⟨reader, by rw [serviceRead_service cfg.reader service default, hdone], hpayload⟩
  · rw [serviceDatamodel_buffer cfg.lib buffer [], payloadOf, ← hpayload, hcomputed]
  · intro visit hvisit hstage
    rcases List.mem_cons.mp hvisit with rfl | hother
    · rfl
    · exact absurd hstage (hrest visit hother)

theorem Answers.response_eq {log log' : List Visit} {fd fd' : Int} {response response' : Bytes}
    {xs ys xs' ys' : List RecvEvent} (h : Answers cfg log fd response xs ys)
    (h' : Answers cfg log' fd' response' xs' ys') {setsockopt setsockopt' : Int}
    {pre pre' post post' : List RecvEvent} {payload payload' : Bytes}
    (hread : .read fd setsockopt (pre ++ .error :: post) .ok payload ∈ log)
    (hread' : .read fd' setsockopt' (pre' ++ .error :: post') .ok payload' ∈ log')
    (hlast : LastRetry cfg.reader pre) (hlast' : LastRetry cfg.reader pre')
    (hsame : received cfg.reader pre = received cfg.reader pre') : response = response' := by
  have hevents := h.only _ hread rfl
  have hevents' := h'.only _ hread' rfl
  simp only [Visit.read.injEq, true_and] at hevents hevents'
  have hpre := LastRetry.unique cfg.reader hlast h.last hevents.2.1
  have hpre' := LastRetry.unique cfg.reader hlast' h'.last hevents'.2.1
  have hpayload : payloadOf cfg xs = payloadOf cfg xs' := by
    rw [payloadOf, payloadOf, hpre, hpre', hsame]
  have hcomputed := h.computed []
  rw [hpayload, h'.computed []] at hcomputed
  exact (congrArg Prod.snd hcomputed).symm

/-! ## What goes out -/

/-- No failing `send` is reached in the writer's iteration while the loop still runs. -/
def SendsInTime : Iteration → Server cfg → Prop
  | .writer objectId acquired setsockopt events, s =>
    ∀ next ∈ s.pipeline.getNextResponse objectId acquired,
      (next.2.elements next.1).response.length < 9223372036854775808 ∧
        (setsockopt ≠ 0 ∨
          FirstErrorLate cfg.writer (next.2.elements next.1).response events)
  | _, _ => True

instance decidableSendsInTime :
    (iteration : Iteration) → (s : Server cfg) → Decidable (SendsInTime iteration s)
  | .writer objectId acquired setsockopt events, s =>
    inferInstanceAs (Decidable (∀ next ∈ s.pipeline.getNextResponse objectId acquired,
      (next.2.elements next.1).response.length < 9223372036854775808 ∧
        (setsockopt ≠ 0 ∨ FirstErrorLate cfg.writer (next.2.elements next.1).response events)))
  | .reader .., _ | .datamodel .., _ | .listener .., _ | .maintenance .., _ =>
    inferInstanceAs (Decidable True)

def InTime (cfg : ServerConfig) : Visit → Prop
  | .write _ setsockopt response events _ _ =>
    response.length < 9223372036854775808 ∧
      (setsockopt ≠ 0 ∨ FirstErrorLate cfg.writer response events)
  | _ => True

theorem inTime_of_visit {iteration : Iteration} {v : Visit}
    (hvisit : visit iteration s = some (r, v)) (h : SendsInTime iteration s) : InTime cfg v := by
  cases iteration with
  | reader objectId acquired setsockopt events =>
    obtain ⟨⟨x, p⟩, -, hv⟩ := Option.bind_eq_some_iff.mp hvisit
    dsimp only at hv
    split at hv <;> cases hv
    trivial
  | datamodel objectId acquired =>
    obtain ⟨⟨x, p⟩, -, hv⟩ := Option.bind_eq_some_iff.mp hvisit
    cases hv
    trivial
  | writer objectId acquired setsockopt events =>
    obtain ⟨⟨x, p⟩, hnext, hv⟩ := Option.bind_eq_some_iff.mp hvisit
    obtain ⟨⟨status, accepted⟩, -, hv⟩ := Option.bind_eq_some_iff.mp hv
    cases hv
    exact h _ hnext
  | listener objectId polling => cases hvisit
  | maintenance acquired => cases hvisit

theorem updateNetworkConnections_log {objectId : Nat} {acquired : List Bool}
    (hstep : updateNetworkConnections objectId acquired s = some s') {v : Visit}
    (hmem : v ∈ s'.log r) : v ∈ s.log r ∨ v.stage = .completed := by
  induction acquired generalizing s with
  | nil => cases hstep
  | cons acquired rest ih =>
    rw [updateNetworkConnections] at hstep
    split at hstep
    · exact .inl (Option.some.inj hstep ▸ hmem)
    · rcases ih hstep with hbefore | hcompleted
      · rcases mem_note.mp hbefore with hold | ⟨-, rfl⟩
        · exact .inl hold
        · exact .inr rfl
      · exact .inr hcompleted

theorem acceptNewClient_log {code newFd : Int} (hstep : s.acceptNewClient code newFd = some s') :
    s'.log = s.log := by
  unfold acceptNewClient connectAccept at hstep
  split_ifs at hstep
  · exact Option.some.inj hstep ▸ rfl
  · split at hstep <;> exact Option.some.inj hstep ▸ rfl
  · exact Option.some.inj hstep ▸ rfl

theorem publishActive_log (s : Server cfg) (acquired : Bool) :
    (s.publishActive acquired).log = s.log := by
  simp only [publishActive]
  split_ifs <;> rfl

theorem serviceListener_log {objectId : Nat} {polling : Polling}
    (hstep : s.serviceListener objectId polling = some s') {v : Visit}
    (hmem : v ∈ s'.log r) : v ∈ s.log r ∨ v.stage = .completed := by
  simp only [serviceListener, Option.bind_eq_bind, Option.bind_eq_some_iff] at hstep
  obtain ⟨u, haccepted, hupdated⟩ := hstep
  have haccept := acceptNewClient_log haccepted
  have hlog : (u.publishActive polling.publishAcquired).log = s.log :=
    (publishActive_log u _).trans haccept
  rw [← hlog]
  split_ifs at hupdated
  · exact .inl (Option.some.inj hupdated ▸ hmem)
  · exact updateNetworkConnections_log hupdated hmem

theorem inTime_of_reachable (h : (machine cfg).ReachableUnder SendsInTime s) {v : Visit}
    (hmem : v ∈ s.log r) : InTime cfg v := by
  have hall : (machine cfg).Reachable s ∧ ∀ r, ∀ v ∈ s.log r, InTime cfg v := by
    refine h.invariant (I := fun s => (machine cfg).Reachable s ∧ ∀ r, ∀ v ∈ s.log r, InTime cfg v)
      ⟨.start, fun r v hv => absurd hv List.not_mem_nil⟩ ?_
    rintro s t iteration ⟨hs, hbefore⟩ hguard hstep
    refine ⟨.step hs trivial hstep, fun x v hv => ?_⟩
    rcases step_cases (inv_of_reachable hs).sited hstep with
      ⟨objectId, polling, rfl, hpass⟩ | ⟨acquired, rfl, rfl⟩ | ⟨-, -, -, rfl⟩ | ⟨r, w, hvisit, hw⟩
    · rcases serviceListener_log hpass hv with hold | hcompleted
      · exact hbefore x v hold
      · cases v with
        | write => cases hcompleted
        | read | compute | complete => trivial
    · exact hbefore x v hv
    · exact hbefore x v hv
    · rw [hw.log] at hv
      rcases mem_note.mp hv with hold | ⟨-, rfl⟩
      · exact hbefore x v hold
      · exact inTime_of_visit hvisit hguard
  exact hall.2 r v hmem

theorem sent_of_write (h : (machine cfg).ReachableUnder SendsInTime s) {fd setsockopt : Int}
    {response : Bytes} {events : List SendEvent} {status : NetworkWriterStatus} {accepted : Bytes}
    (hmem : .write fd setsockopt response events status accepted ∈ s.log r) :
    accepted <+: response ∧ (status = .ok ↔ accepted = response) := by
  obtain ⟨hlength, hlate⟩ := inTime_of_reachable h hmem
  obtain ⟨hsent, payload, -, -, -, -, hdone, -, -⟩ :=
    ((inv_of_reachable h.reachable).life_of_mem hmem).of_write hmem
  have hne := serviceDatamodel_ne_nil cfg.lib [] payload
  rw [hdone] at hne
  exact serviceWrite_sent hne hlength hlate hsent

/-- A client is sent the result for its own request and nothing else; two runs in which
the bytes read for the one element and for the other agree send the same. -/
theorem sent_response (h : (machine cfg).ReachableUnder SendsInTime s)
    (h' : (machine cfg).ReachableUnder SendsInTime s') {fd fd' setsockopt setsockopt' : Int}
    {response response' : Bytes} {events events' : List SendEvent}
    {status status' : NetworkWriterStatus} {accepted accepted' : Bytes}
    (hmem : .write fd setsockopt response events status accepted ∈ s.log r)
    (hmem' : .write fd' setsockopt' response' events' status' accepted' ∈ s'.log r') :
    (∃ pre post, Answers cfg (s.log r) fd response pre post) ∧
    (accepted <+: response ∧ (status = .ok ↔ accepted = response)) ∧
    ∀ code code' pre pre' post post' payload payload',
      .read fd code (pre ++ .error :: post) .ok payload ∈ s.log r →
      .read fd' code' (pre' ++ .error :: post') .ok payload' ∈ s'.log r' →
      LastRetry cfg.reader pre → LastRetry cfg.reader pre' →
      received cfg.reader pre = received cfg.reader pre' →
      response = response' ∧ (status = .ok → status' = .ok → accepted = accepted') ∧
        (setsockopt = setsockopt' → events = events' →
          status = status' ∧ accepted = accepted') := by
  obtain ⟨xs, ys, hanswers⟩ := answers_of_write h.reachable hmem
  obtain ⟨xs', ys', hanswers'⟩ := answers_of_write h'.reachable hmem'
  have hsent := sent_of_write h hmem
  refine ⟨⟨xs, ys, hanswers⟩, hsent, ?_⟩
  intro code code' pre pre' post post' payload payload' hread hread' hlast hlast' hsame
  obtain rfl := hanswers.response_eq hanswers' hread hread' hlast hlast' hsame
  refine ⟨rfl, fun hok hok' => ?_, ?_⟩
  · exact (hsent.2.mp hok).trans ((sent_of_write h' hmem').2.mp hok').symm
  · rintro rfl rfl
    have hdone := (((inv_of_reachable h.reachable).life_of_mem hmem).of_write hmem).1
    have hdone' := (((inv_of_reachable h'.reachable).life_of_mem hmem').of_write hmem').1
    exact Prod.mk.inj (Option.some.inj (hdone.symm.trans hdone'))

def pingEvents : List RecvEvent :=
  [.bytes (ascii "000000000000037" ++ pingText 1), .error, .error]

def ping : List Iteration :=
  connect ++ [.reader 1 true 0 pingEvents, .datamodel 2 true, .writer 3 true 0 [.room 100]]

theorem sent_response_ping :
    ∃ s, (machine shipped).runUnder SendsInTime ping (start shipped) = some s ∧
      (∃ pre post, Answers shipped (s.log 0) 4 (pingText 2) pre post) ∧
      .write 4 0 (pingText 2) [.room 100] .ok (pingText 2) ∈ s.log 0 := by
  have hrun : ((machine shipped).runUnder SendsInTime ping (start shipped)).map (fun s =>
      decide (.write 4 0 (pingText 2) [.room 100] .ok (pingText 2) ∈ s.log 0)) = some true := by
    decide +kernel
  obtain ⟨s, hs, hstate⟩ := Option.map_eq_some_iff.mp hrun
  have hmem := of_decide_eq_true hstate
  have hreachable := Machine.reachableUnder_of_run hs
  exact ⟨s, hs, (sent_response hreachable hreachable hmem hmem).1, hmem⟩

def stuttered : List Iteration :=
  connect ++ [.reader 1 true 0 pingEvents, .datamodel 2 true,
    .writer 3 true 0 [.room 1, .error, .room 100]]

/-- The client gets the first byte of the reply twice, and the write reports OK. -/
theorem stuttered_not_response :
    ∃ s accepted, (machine shipped).run stuttered (start shipped) = some s ∧
      (machine shipped).Reachable s ∧
      .write 4 0 (pingText 2) [.room 1, .error, .room 100] .ok accepted ∈ s.log 0 ∧
      accepted = (pingText 2).take 1 ++ pingText 2 ∧ ¬ accepted <+: pingText 2 := by
  have hrun : ((machine shipped).run stuttered (start shipped)).map (fun s =>
      decide (.write 4 0 (pingText 2) [.room 1, .error, .room 100] .ok
        ((pingText 2).take 1 ++ pingText 2) ∈ s.log 0)) = some true := by decide +kernel
  obtain ⟨s, hs, hstate⟩ := Option.map_eq_some_iff.mp hrun
  exact ⟨s, _, hs, Machine.reachable_of_run hs, of_decide_eq_true hstate, rfl, by decide⟩

/-! ## Requests that are not answered -/

/-- Before the listener dealt with the element, a writer was given it once, with the text
that the datamodel worker had composed for this payload. -/
def Replied (cfg : ServerConfig) (log : List Visit) (payload : Bytes) : Prop :=
  ∃ before taken connection isOpen, log = before ++ [.complete taken connection isOpen] ∧
    writes before = [(DatamodelService.serviceDatamodel cfg.lib [] payload).2] ∧
    (DatamodelService.serviceDatamodel cfg.lib [] payload).2 ≠ []

theorem writes_of_settled {fd fd' setsockopt : Int} {events : List RecvEvent} {payload : Bytes}
    {log : List Visit} {e : ServerPipelineElement} (h : Life.Settled cfg fd log e)
    (hmem : .read fd' setsockopt events .ok payload ∈ log) :
    writes log = if (DatamodelService.serviceDatamodel cfg.lib [] payload).1 = .ok
      then [(DatamodelService.serviceDatamodel cfg.lib [] payload).2] else [] := by
  cases h with
  | unread _ _ _ _ failed =>
    simp only [List.mem_singleton, Visit.read.injEq] at hmem
    exact absurd hmem.2.2.2.1.symm failed
  | uncomputed read done failed =>
    obtain rfl := read.payload_eq (by simp [Visit.stage]) hmem
    obtain ⟨_, _, _, rfl, -⟩ := read
    rw [done, if_neg failed]
    rfl
  | unwritten read done | written read done =>
    obtain rfl := read.payload_eq (by simp [Visit.stage]) hmem
    obtain ⟨_, _, _, rfl, -⟩ := read
    rw [done, if_pos rfl]
    rfl

/-- Of the requests that were read, exactly the pings are answered: the text composed
for any other is dropped with the connection. -/
theorem replied_iff (h : (machine cfg).Reachable s) {fd setsockopt : Int}
    {events : List RecvEvent} {payload : Bytes}
    (hread : .read fd setsockopt events .ok payload ∈ s.log r) {taken : ServerPipelineElement}
    {connection : Option NetworkConnection} {isOpen : Bool}
    (hcomplete : .complete taken connection isOpen ∈ s.log r) :
    Replied cfg (s.log r) payload ↔ IsPing cfg.lib payload := by
  have hlife := (inv_of_reachable h).life_of_mem hread
  obtain ⟨log, hsettled, hlog⟩ := hlife.of_complete hcomplete
  have hbefore : .read fd setsockopt events .ok payload ∈ log := by
    rw [hlog] at hread
    simpa using hread
  have hwrites := writes_of_settled hsettled hbefore
  rw [← serviceDatamodel_ok_iff cfg.lib []]
  constructor
  · rintro ⟨before, taken', connection', isOpen', hsplit, hgiven, -⟩
    have hsame : before = log := (List.append_inj' (hsplit.symm.trans hlog) rfl).1
    by_contra hfailed
    rw [hsame, hwrites, if_neg hfailed] at hgiven
    cases hgiven
  · intro hok
    rw [if_pos hok] at hwrites
    exact ⟨log, taken, connection, isOpen, hlog, hwrites, serviceDatamodel_ne_nil cfg.lib [] payload⟩

theorem replied_iff_ping :
    ∃ s, (machine shipped).run (ping ++ [closing]) (start shipped) = some s ∧
      Replied shipped (s.log 0) (pingText 1) := by
  have hrun : ((machine shipped).run (ping ++ [closing]) (start shipped)).map (fun s =>
      decide (.read 4 0 pingEvents .ok (pingText 1) ∈ s.log 0 ∧
        .complete (((new 4).read (pingText 1)).compute (pingText 2)).write (some ⟨4, false⟩) true ∈
          s.log 0)) = some true := by decide +kernel
  obtain ⟨s, hs, hstate⟩ := Option.map_eq_some_iff.mp hrun
  obtain ⟨hread, hcomplete⟩ := of_decide_eq_true hstate
  refine ⟨s, hs, (replied_iff (Machine.reachable_of_run hs) hread hcomplete).mpr ?_⟩
  exact ⟨_, _, _, rfl, rfl, rfl, rfl⟩

def garbled : List Iteration :=
  connect ++ [.reader 1 true 0 [.bytes (ascii "000000000000016x"), .error, .error],
    .datamodel 2 true, closing]

theorem garbled_not_replied :
    ∃ s taken, (machine shipped).run garbled (start shipped) = some s ∧
      .read 4 0 [.bytes (ascii "000000000000016x"), .error, .error] .ok (ascii "x") ∈ s.log 0 ∧
      .complete taken none false ∈ s.log 0 ∧ writes (s.log 0) = [] ∧
      ¬ Replied shipped (s.log 0) (ascii "x") := by
  have hrun : ((machine shipped).run garbled (start shipped)).map (fun s => s.log 0) =
      some [.read 4 0 [.bytes (ascii "000000000000016x"), .error, .error] .ok (ascii "x"),
        .compute .notOk (ascii "\x7b\"body\":\"invalid request\"\x7d"),
        .complete (((new 4).read (ascii "x")).abandon .markAsDatamodelFailed) none false] := by
    decide +kernel
  obtain ⟨s, hs, hlog⟩ := Option.map_eq_some_iff.mp hrun
  refine ⟨s, ((new 4).read (ascii "x")).abandon .markAsDatamodelFailed, hs, ?_⟩
  rw [hlog]
  refine ⟨by simp, by simp, rfl, ?_⟩
  rintro ⟨before, taken, connection, isOpen, hsplit, hgiven, -⟩
  have hnone : writes (before ++ [.complete taken connection isOpen]) = [] := by
    rw [← hsplit]
    rfl
  rw [writes, List.filterMap_append, ← writes, hgiven] at hnone
  cases hnone

end Server

end MultiplexServer

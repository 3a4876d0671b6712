import Mathlib.Data.List.Basic
import MultiplexServer.NetworkReaderService

/-! The state of the receive loop at its head, as a function of the events met so
far: the loop is still running exactly on the waiting lists of events, and what it
returns from its body is never READER_STATUS_OK. -/

namespace MultiplexServer.NetworkReaderService
open Strings

variable (cfg : ReaderConfig)

/-- The locals after these events; the member buffer is still as cleared. -/
structure Tracks (events : List RecvEvent) (s : ReadState cfg) : Prop where
  service : s.service.resultBuffer = []
  count : s.errorLoopCount = failures events
  buffer : s.resultBuffer = received cfg events
  header : s.headerMessageLength = headerOf cfg (received cfg events)

structure Waiting (events : List RecvEvent) : Prop where
  waits : ∀ e ∈ events, e.Waits
  retries : events = [] ∨ failures events.dropLast < cfg.readRetry
  accepts : Accepts cfg (received cfg events)

theorem failures_dropLast_le (events : List RecvEvent) :
    failures events.dropLast ≤ failures events :=
  (List.dropLast_sublist events).count_le _

theorem accepts_nil : Accepts cfg [] :=
  ⟨Nat.zero_le _, fun h => absurd h (Nat.not_lt_zero _)⟩

theorem tracks_nil (service : Reader cfg) : Tracks cfg [] (readStart cfg service) where
  service := rfl
  count := rfl
  buffer := rfl
  header := (headerOf_short cfg (Nat.not_lt_zero _)).symm

section Guard

variable {cfg} {events : List RecvEvent} {s : ReadState cfg}

theorem Tracks.guard_eq_none_iff (h : Tracks cfg events s) :
    (readLoop cfg).guard s = none ↔ failures events < cfg.readRetry := by
  rw [← h.count]
  simp only [readLoop, ite_eq_right_iff, reduceCtorEq, imp_false, not_le]

theorem Tracks.guard_eq_some_iff (h : Tracks cfg events s) {r : ReadReturn cfg} :
    (readLoop cfg).guard s = some r ↔
      cfg.readRetry ≤ failures events ∧ r = .ok (afterLoop cfg s) := by
  rw [← h.count]
  simp only [readLoop, Option.ite_none_right_eq_some, Option.some.injEq]
  exact and_congr_right fun _ => eq_comm

end Guard

theorem waiting_nil : Waiting cfg [] where
  waits := by simp
  retries := .inl rfl
  accepts := accepts_nil cfg

theorem Waiting.concat {xs : List RecvEvent} {e : RecvEvent} (h : Waiting cfg xs)
    (he : e.Waits) (hr : failures xs < cfg.readRetry)
    (ha : Accepts cfg (received cfg (xs ++ [e]))) : Waiting cfg (xs ++ [e]) where
  waits := by
    intro x hx
    rcases List.mem_append.mp hx with hx | hx
    · exact h.waits x hx
    · rwa [List.mem_singleton.mp hx]
  retries := .inr (by rwa [List.dropLast_concat])
  accepts := ha

theorem Waiting.of_concat {xs : List RecvEvent} {e : RecvEvent} (h : Waiting cfg (xs ++ [e])) :
    Waiting cfg xs ∧ e.Waits ∧ failures xs < cfg.readRetry := by
  have hr : failures xs < cfg.readRetry := by
    rcases h.retries with hnil | hr
    · simp at hnil
    · rwa [List.dropLast_concat] at hr
  refine ⟨⟨fun x hx => h.waits x (by simp [hx]), .inr ?_, ?_⟩, h.waits e (by simp), hr⟩
  · exact lt_of_le_of_lt (failures_dropLast_le xs) hr
  · have ha := h.accepts
    rw [received_append] at ha
    exact ha.of_append cfg

theorem Waiting.of_append {xs ys : List RecvEvent} (h : Waiting cfg (xs ++ ys)) :
    Waiting cfg xs := by
  induction ys using List.reverseRecOn with
  | nil => simpa using h
  | append_singleton ys e ih =>
    rw [← List.append_assoc] at h
    exact ih (h.of_concat cfg).1

theorem readBody_waits {xs : List RecvEvent} {s : ReadState cfg} {e : RecvEvent}
    (h : Tracks cfg xs s) (he : e.Waits) :
    ∃ u : ReadState cfg, readBody cfg s e = checkReceived cfg u ∧
      u.service.resultBuffer = [] ∧ u.errorLoopCount = failures (xs ++ [e]) ∧
      u.headerMessageLength = headerOf cfg (received cfg xs) ∧
      u.resultBuffer = received cfg xs ++ chunkText cfg e := by
  cases e with
  | exit => exact absurd rfl he.1
  | error =>
    refine ⟨s.fail, rfl, h.service, ?_, h.header, ?_⟩
    · simp [ReadState.fail, h.count, failures]
    · simp [ReadState.fail, h.buffer, chunkText]
  | bytes available =>
    have hsize := cfg.bufferSize_ge
    have hcount : (available.take (cfg.networkBufferSize - 1)).length ≠ 0 := by
      have hne : available ≠ [] := fun hnil => he.2 (hnil ▸ rfl)
      have := List.length_pos_iff.mpr hne
      simp only [List.length_take, ReaderConfig.networkBufferSize]
      omega
    refine ⟨s.receive available, by rw [readBody, if_neg hcount], h.service, ?_, h.header, ?_⟩
    · simp [ReadState.receive, h.count, failures]
    · simp only [ReadState.receive, h.buffer, cString_receive, chunkText]

theorem run_waiting (service : Reader cfg) {events : List RecvEvent} (h : Waiting cfg events) :
    ∃ s, (readLoop cfg).run (readStart cfg service) events = .inl s ∧ Tracks cfg events s := by
  induction events using List.reverseRecOn with
  | nil => exact ⟨_, rfl, tracks_nil cfg service⟩
  | append_singleton xs e ih =>
    obtain ⟨hxs, he, hr⟩ := h.of_concat cfg
    obtain ⟨s, hrun, htrack⟩ := ih hxs
    obtain ⟨u, hbody, hservice, hcount, hheader, hbuffer⟩ := readBody_waits cfg htrack he
    have hguard : (readLoop cfg).guard s = none := htrack.guard_eq_none_iff.mpr hr
    have hafter : Accepts cfg (received cfg xs ++ chunkText cfg e) := by
      simpa using h.accepts
    have hcheck := checkReceived_accepts hxs.accepts hheader hbuffer hafter
    refine ⟨{ u with headerMessageLength := headerOf cfg (received cfg xs ++ chunkText cfg e) },
      ?_, ⟨hservice, hcount, by simp [hbuffer], ?_⟩⟩
    · rw [EventLoop.run_concat, hrun]
      exact ((readLoop cfg).pass_of_guard_none hguard e).trans (hbody.trans hcheck)
    · simp

theorem waiting_of_run (service : Reader cfg) {events : List RecvEvent} {s : ReadState cfg}
    (h : (readLoop cfg).run (readStart cfg service) events = .inl s) :
    Waiting cfg events ∧ Tracks cfg events s := by
  suffices hw : Waiting cfg events by
    obtain ⟨t, ht, htrack⟩ := run_waiting cfg service hw
    rw [h] at ht
    cases ht
    exact ⟨hw, htrack⟩
  refine (readLoop cfg).run_invariant (I := fun xs s => Waiting cfg xs ∧ Tracks cfg xs s)
    ⟨waiting_nil cfg, tracks_nil cfg service⟩ ?_ h |>.1
  rintro xs s e t ⟨hw, htrack⟩ hguard hbody
  have hr : failures xs < cfg.readRetry := htrack.guard_eq_none_iff.mp hguard
  have he : e.Waits := by
    constructor <;> rintro rfl
    · cases hbody
    · simp [readLoop, readBody] at hbody
  obtain ⟨u, hcheck, hservice, hcount, hheader, hbuffer⟩ := readBody_waits cfg htrack he
  have hafter : Accepts cfg (received cfg xs ++ chunkText cfg e) := by
    by_contra hno
    have hinl : checkReceived cfg u = .inl t := hcheck.symm.trans hbody
    by_cases hover : HeaderOverflows cfg (received cfg xs ++ chunkText cfg e)
    · rw [checkReceived_overflows hw.accepts hheader hbuffer hover] at hinl
      cases hinl
    · obtain ⟨status, -, hrefuse⟩ := checkReceived_refuses hw.accepts hheader hbuffer hno hover
      rw [hrefuse] at hinl
      cases hinl
  have hnext : checkReceived cfg u = .inl t := hcheck.symm.trans hbody
  rw [checkReceived_accepts hw.accepts hheader hbuffer hafter] at hnext
  cases hnext
  exact ⟨hw.concat cfg he hr (by simpa using hafter),
    ⟨hservice, hcount, by simp [hbuffer], by simp⟩⟩

theorem chunkText_not_waits {e : RecvEvent} (h : ¬ e.Waits) : chunkText cfg e = [] := by
  rcases RecvEvent.not_waits h with rfl | rfl <;> simp [chunkText, cString]

theorem readBody_not_waits (s : ReadState cfg) {e : RecvEvent} (h : ¬ e.Waits) :
    ∃ status, status ≠ .ok ∧ readBody cfg s e = .inr (.ok (status, s.service)) := by
  rcases RecvEvent.not_waits h with rfl | rfl
  · exact ⟨.systemExit, by decide, rfl⟩
  · exact ⟨.connectionClosed, by decide, by simp [readBody]⟩

theorem readBody_returns {xs : List RecvEvent} {s : ReadState cfg} {e : RecvEvent}
    {r : ReadReturn cfg} (hw : Waiting cfg xs) (ht : Tracks cfg xs s)
    (h : readBody cfg s e = .inr r) :
    (HeaderOverflows cfg (received cfg (xs ++ [e])) ∧ r = .error .outOfRange) ∨
    (¬ HeaderOverflows cfg (received cfg (xs ++ [e])) ∧
      (e.Waits → ¬ Accepts cfg (received cfg (xs ++ [e]))) ∧
      ∃ status out, status ≠ .ok ∧ r = .ok (status, out)) := by
  rw [received_append, received_singleton]
  by_cases he : e.Waits
  · obtain ⟨u, hcheck, -, -, hheader, hbuffer⟩ := readBody_waits cfg ht he
    rw [hcheck] at h
    by_cases hafter : Accepts cfg (received cfg xs ++ chunkText cfg e)
    · rw [checkReceived_accepts hw.accepts hheader hbuffer hafter] at h
      cases h
    by_cases hover : HeaderOverflows cfg (received cfg xs ++ chunkText cfg e)
    · rw [checkReceived_overflows hw.accepts hheader hbuffer hover] at h
      cases h
      exact .inl ⟨hover, rfl⟩
    · obtain ⟨status, hne, hrefuse⟩ :=
        checkReceived_refuses hw.accepts hheader hbuffer hafter hover
      rw [hrefuse] at h
      cases h
      exact .inr ⟨hover, fun _ => hafter, status, _, hne, rfl⟩
  · rw [chunkText_not_waits cfg he, List.append_nil]
    obtain ⟨status, hne, hbody⟩ := readBody_not_waits cfg s he
    rw [hbody] at h
    cases h
    exact .inr ⟨hw.accepts.not_overflows, fun hwait => absurd hwait he, status, _, hne, rfl⟩

end MultiplexServer.NetworkReaderService

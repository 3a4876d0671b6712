import MultiplexServer.NetworkReaderLoop

/-! When a call returns on an endless sequence of events, and when the exception of
the header conversion escapes it. Nothing between `service_read` and the thread's
entry point catches one. -/

namespace MultiplexServer.NetworkReaderService
open Strings EventLoop

variable (cfg : ReaderConfig)

theorem serviceRead_error {service : Reader cfg} {setsockopt : Int} {events : List RecvEvent}
    {ex : CppException} (h : serviceRead cfg service setsockopt events = some (.error ex)) :
    HeaderOverflows cfg (received cfg events) := by
  by_cases hcode : setsockopt ≠ 0
  · rw [serviceRead, if_pos hcode] at h
    cases h
  rw [serviceRead, if_neg hcode] at h
  obtain ⟨xs, ys, s, rfl, hrun, hreturn⟩ := (readLoop cfg).result_eq_some_iff.mp h
  obtain ⟨hw, ht⟩ := waiting_of_run cfg service hrun
  rcases hreturn with hguard | ⟨e, zs, rfl, -, hbody⟩
  · cases (ht.guard_eq_some_iff.mp hguard).2
  · rcases readBody_returns cfg hw ht hbody with ⟨hover, -⟩ | ⟨-, -, status, out, -, hr⟩
    · have hmore := hover.append cfg (received cfg zs)
      rw [← received_append, List.append_assoc] at hmore
      exact hmore
    · cases hr

/-- Reading ends by the `k`-th event: the retries are used up, the next event is
an exit flag or a zero-byte read, or the text is one the tests turn away. -/
def Stops (events : Nat → RecvEvent) (k : Nat) : Prop :=
  cfg.readRetry ≤ failures (firstEvents events k) ∨ ¬ (events k).Waits ∨
    ¬ Accepts cfg (received cfg (firstEvents events k))

theorem stops_of_serviceRead {service : Reader cfg} {events : Nat → RecvEvent} {k : Nat}
    {status : NetworkReaderStatus} {out : Reader cfg}
    (h : serviceRead cfg service 0 (firstEvents events k) = some (.ok (status, out))) :
    ∃ j, Stops cfg events j ∧ ¬ HeaderOverflows cfg (received cfg (firstEvents events j)) := by
  simp only [serviceRead, ne_eq, not_true_eq_false, if_false] at h
  obtain ⟨xs, ys, s, hsplit, hrun, hreturn⟩ := (readLoop cfg).result_eq_some_iff.mp h
  obtain ⟨hw, ht⟩ := waiting_of_run cfg service hrun
  obtain ⟨hxs, hnext⟩ := firstEvents_split hsplit
  generalize xs.length = j at hxs hnext
  subst hxs
  have hhere := hw.accepts.not_overflows
  rcases hreturn with hguard | ⟨e, zs, hys, -, hbody⟩
  · exact ⟨j, .inl (ht.guard_eq_some_iff.mp hguard).1, hhere⟩
  · obtain rfl := hnext e zs hys
    rcases readBody_returns cfg hw ht hbody with ⟨-, hr⟩ | ⟨hfits, hrefused, -⟩
    · cases hr
    · rw [← firstEvents_succ] at hfits hrefused
      by_cases hwait : (events j).Waits
      · exact ⟨j + 1, .inr (.inr (hrefused hwait)), hfits⟩
      · exact ⟨j, .inr (.inl hwait), hhere⟩

theorem serviceRead_of_stops (service : Reader cfg) {events : Nat → RecvEvent} {k : Nat}
    (hstop : Stops cfg events k)
    (hfits : ¬ HeaderOverflows cfg (received cfg (firstEvents events k))) :
    ∃ j r, serviceRead cfg service 0 (firstEvents events j) = some r ∧
      ¬ HeaderOverflows cfg (received cfg (firstEvents events j)) := by
  simp only [serviceRead, ne_eq, not_true_eq_false, if_false]
  cases hrun : (readLoop cfg).run (readStart cfg service) (firstEvents events k) with
  | inr r => exact ⟨k, r, by rw [EventLoop.result, hrun], hfits⟩
  | inl s =>
    obtain ⟨hw, ht⟩ := waiting_of_run cfg service hrun
    cases hguard : (readLoop cfg).guard s with
    | some r => exact ⟨k, r, by rw [EventLoop.result, hrun]; exact hguard, hfits⟩
    | none =>
      have hwait : ¬ (events k).Waits := by
        rcases hstop with h | h | h
        · exact absurd (ht.guard_eq_none_iff.mp hguard) (Nat.not_lt.mpr h)
        · exact h
        · exact absurd hw.accepts h
      obtain ⟨status, -, hbody⟩ := readBody_not_waits cfg s hwait
      have hpass : (readLoop cfg).pass s (events k) = .inr (.ok (status, s.service)) :=
        ((readLoop cfg).pass_of_guard_none hguard _).trans hbody
      refine ⟨k + 1, .ok (status, s.service), ?_, ?_⟩
      · simp only [firstEvents_succ, EventLoop.result, EventLoop.run_concat, hrun, hpass]
      · rwa [firstEvents_succ, received_append, received_singleton,
          chunkText_not_waits cfg hwait, List.append_nil]

/-- On every sequence of events a call returns a status, without an exception,
exactly when reading ends before the peer has spelled an oversized header; the
conversion itself answers `-1` or the exact value on every header that fits. -/
theorem serviceRead_returns_iff :
    (∀ (service : Reader cfg) (setsockopt : Int) (events : Nat → RecvEvent),
      (∃ k status out, serviceRead cfg service setsockopt (firstEvents events k) =
        some (.ok (status, out))) ↔
      (setsockopt ≠ 0 ∨ ∃ k, Stops cfg events k ∧
        ¬ HeaderOverflows cfg (received cfg (firstEvents events k)))) ∧
    (∀ buffer : Bytes, HasHeader cfg.protocolHeaderSizeLength buffer →
      ((extractLeadingNumberLengthN buffer cfg.protocolHeaderSizeLength = .ok (-1) ∨
        (extractLeadingNumberLengthN buffer cfg.protocolHeaderSizeLength =
            .ok (headerValue cfg.protocolHeaderSizeLength buffer) ∧
          cfg.protocolHeaderSizeLength ≤ headerValue cfg.protocolHeaderSizeLength buffer ∧
          headerValue cfg.protocolHeaderSizeLength buffer ≤ intMax)) ↔
        headerValue cfg.protocolHeaderSizeLength buffer ≤ intMax)) := by
  constructor
  · intro service setsockopt events
    by_cases hcode : setsockopt = 0
    · subst hcode
      constructor
      · rintro ⟨k, status, out, h⟩
        exact .inr (stops_of_serviceRead cfg h)
      · rintro (hcode | ⟨k, hstop, hfits⟩)
        · exact absurd rfl hcode
        · obtain ⟨j, r, hcall, hno⟩ := serviceRead_of_stops cfg service hstop hfits
          cases r with
          | error ex => exact absurd (serviceRead_error cfg hcall) hno
          | ok out => exact ⟨j, out.1, out.2, hcall⟩
    · refine iff_of_true ⟨0, .systemError, service.clear, ?_⟩ (.inl hcode)
      rw [serviceRead, if_pos hcode]
  · intro buffer hhead
    rw [extractLeadingNumberLengthN_eq buffer cfg.header_pos, if_pos hhead]
    by_cases hbig : intMax < headerValue cfg.protocolHeaderSizeLength buffer
    · simp only [if_pos hbig, reduceCtorEq, false_and, or_self, false_iff]
      omega
    · rw [if_neg hbig]
      refine iff_of_true ?_ (by omega)
      by_cases hlow : headerValue cfg.protocolHeaderSizeLength buffer <
          cfg.protocolHeaderSizeLength
      · exact .inl (if_pos hlow)
      · exact .inr ⟨if_neg hlow, by omega, by omega⟩

def shippedConfig : ReaderConfig where
  readRetry := 2
  protocolHeaderSizeLength := 15
  clientsMaxMessageSize := 10000
  bufferSize := 1024
  readRetry_le := by decide
  header_pos := by decide
  header_le := by decide
  maxMessageSize_ge := by decide
  maxMessageSize_le := by decide
  bufferSize_ge := by decide
  bufferSize_le := by decide

def nines : Nat → RecvEvent := fun _ => .bytes (List.replicate 15 57 ++ [32])

theorem nines_overflow (j : Nat) :
    HeaderOverflows shippedConfig (received shippedConfig (firstEvents nines (j + 1))) := by
  have hfirst : HeaderOverflows shippedConfig (chunkText shippedConfig (nines 0)) := by
    decide +kernel
  have hsplit : received shippedConfig (firstEvents nines (j + 1)) =
      chunkText shippedConfig (nines 0) ++ received shippedConfig (firstEvents nines j) := by
    simp only [firstEvents, received, List.range_succ_eq_map, List.map_cons, List.flatMap_cons,
      List.map_map]
    rfl
  rw [hsplit]
  exact hfirst.append shippedConfig _

theorem serviceRead_nines :
    (¬ ∀ (service : Reader shippedConfig) (events : Nat → RecvEvent), ∃ k status out,
      serviceRead shippedConfig service 0 (firstEvents events k) = some (.ok (status, out))) ∧
    extractLeadingNumberLengthN (List.replicate 15 57 ++ [32]) 15 = .error .outOfRange := by
  refine ⟨fun h => ?_, by decide⟩
  obtain ⟨k, status, out, hcall⟩ := h default nines
  obtain ⟨j, hstop, hfits⟩ := stops_of_serviceRead shippedConfig hcall
  cases j with
  | zero =>
    rcases hstop with hretry | hwait | htext
    · exact absurd hretry (by decide)
    · exact absurd (by decide) hwait
    · exact htext (accepts_nil shippedConfig)
  | succ j => exact hfits (nines_overflow j)

end MultiplexServer.NetworkReaderService

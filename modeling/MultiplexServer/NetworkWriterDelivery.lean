import MultiplexServer.NetworkWriterService

/-! What a write reported OK has delivered. `count` is a `size_t`, so the test
`count <= 0` does not see the `-1` of a failing `send`; the loop keeps its books
exactly as long as no failing `send` is reached. -/

namespace MultiplexServer.NetworkWriterService
open Strings EventLoop

variable {cfg : WriterConfig} {response : Bytes}

/-- The loop head after these events, none of which failed or raised the exit flag. -/
structure Tracks (cfg : WriterConfig) (response : Bytes) (events : List SendEvent)
    (s : SendState) : Prop where
  exit : .exit ∉ events
  error : .error ∉ events
  count : s.errorLoopCount = zeros events
  accepted : s.accepted = response.take (total cfg events)
  sent : s.sentMessageLength = total cfg events
  unfinished : total cfg events < response.length

theorem tracks_start (hne : response ≠ []) : Tracks cfg response [] sendStart where
  exit := by simp
  error := by simp
  count := rfl
  accepted := by simp [sendStart, total]
  sent := rfl
  unfinished := List.length_pos_iff.mpr hne

theorem Tracks.accepted_length {events : List SendEvent} {s : SendState}
    (h : Tracks cfg response events s) : s.accepted.length = total cfg events := by
  rw [h.accepted, List.length_take]
  exact min_eq_left h.unfinished.le

theorem toSizeT_of_nat {n : Nat} (h : n < 9223372036854775808) : toSizeT n = n := by
  unfold toSizeT
  omega

theorem toInt64_of_nat {n : Nat} (h : n < 9223372036854775808) : toInt64 n = n := by
  unfold toInt64
  omega

theorem min_natCast (a b : Nat) : min (a : Int) (b : Int) = (min a b : Nat) := by
  omega

theorem Tracks.sendResult_room {events : List SendEvent} {s : SendState}
    (h : Tracks cfg response events s) (hlen : response.length < 9223372036854775808)
    (capacity : Nat) :
    sendResult cfg response s (.room capacity) =
      (min (min capacity cfg.bufferSize) (response.length - total cfg events) : Nat) := by
  have hsent := h.sent
  have hopen := h.unfinished
  have hrest : toInt64 response.length - s.sentMessageLength =
      (response.length - total cfg events : Nat) := by
    rw [toInt64_of_nat hlen]
    omega
  have hoffer : offered cfg response s =
      (min cfg.bufferSize (response.length - total cfg events) : Nat) := by
    have hbuffer : cfg.networkBufferSize - 1 = cfg.bufferSize := by
      simp [WriterConfig.networkBufferSize]
    rw [offered, hrest, hbuffer, min_natCast, toSizeT_of_nat (by omega)]
  rw [sendResult, hoffer, min_natCast, min_assoc]

theorem Tracks.sendBody_eq {events : List SendEvent} {s : SendState}
    (h : Tracks cfg response events s) (hlen : response.length < 9223372036854775808)
    (capacity : Nat) :
    sendBody cfg response s (.room capacity) =
      if capacity = 0 then .inl { s with errorLoopCount := s.errorLoopCount + 1 }
      else if response.length ≤ total cfg (events ++ [.room capacity]) then .inr (.ok, response)
      else .inl { s with
        sentMessageLength := total cfg (events ++ [.room capacity])
        accepted := response.take (total cfg (events ++ [.room capacity])) } := by
  have hopen := h.unfinished
  have hbuffer := cfg.bufferSize_ge
  have hresult := h.sendResult_room hlen capacity
  generalize hk : min (min capacity cfg.bufferSize) (response.length - total cfg events) = k
    at hresult
  have hksize : toSizeT k = k := toSizeT_of_nat (by omega)
  have hsum : toSizeT s.sentMessageLength + k = (total cfg events + k : Nat) := by
    rw [h.sent, toSizeT_of_nat (by omega)]
    push_cast
    rfl
  have htext : s.accepted ++ (response.drop s.sentMessageLength.toNat).take k =
      response.take (total cfg events + k) := by
    rw [h.accepted, h.sent, Int.toNat_natCast, List.take_add]
  have hmore : total cfg (events ++ [.room capacity]) =
      total cfg events + min capacity cfg.bufferSize := by
    rw [total_append, total_room]
  have hsmall : total cfg events + k < 9223372036854775808 := by omega
  simp only [sendBody, reduceCtorEq, if_false, hresult, hksize, Int.toNat_natCast, htext, hsum,
    toInt64_of_nat hsmall, toSizeT_of_nat hsmall]
  by_cases hzero : capacity = 0
  · rw [if_pos hzero, if_pos (by omega)]
  rw [if_neg hzero, if_neg (by omega)]
  by_cases hdone : response.length ≤ total cfg (events ++ [.room capacity])
  · rw [if_pos hdone, if_pos (by omega), List.take_of_length_le (by omega)]
  · have hk' : total cfg events + k = total cfg (events ++ [.room capacity]) := by omega
    rw [if_neg hdone, if_neg (by omega), hk']

theorem Tracks.sendBody_room {events : List SendEvent} {s : SendState}
    (h : Tracks cfg response events s) (hlen : response.length < 9223372036854775808)
    (capacity : Nat) :
    if response.length ≤ total cfg (events ++ [.room capacity]) then
      sendBody cfg response s (.room capacity) = .inr (.ok, response)
    else ∃ t, sendBody cfg response s (.room capacity) = .inl t ∧
      Tracks cfg response (events ++ [.room capacity]) t := by
  rw [h.sendBody_eq hlen]
  by_cases hzero : capacity = 0
  · subst hzero
    have hsame : total cfg (events ++ [.room 0]) = total cfg events := by
      simp [total_append, total_room]
    have hopen := h.unfinished
    rw [if_neg (by omega), if_pos rfl]
    refine ⟨_, rfl, ?_⟩
    exact
      { exit := by simpa using h.exit
        error := by simpa using h.error
        count := by simp [h.count, zeros_room]
        accepted := by rw [hsame]; exact h.accepted
        sent := by rw [hsame]; exact h.sent
        unfinished := by rw [hsame]; exact hopen }
  · rw [if_neg hzero]
    split_ifs with hdone
    · rfl
    · refine ⟨_, rfl, ?_⟩
      exact
        { exit := by simpa using h.exit
          error := by simpa using h.error
          count := by simp [h.count, zeros_room, hzero]
          accepted := rfl
          sent := rfl
          unfinished := by omega }

theorem pass_eq {s : SendState} (h : (sendLoop cfg response).guard s = none) (e : SendEvent) :
    (sendLoop cfg response).pass s e = sendBody cfg response s e :=
  (sendLoop cfg response).pass_of_guard_none h e

theorem Tracks.guard_eq_none_iff {events : List SendEvent} {s : SendState}
    (h : Tracks cfg response events s) :
    (sendLoop cfg response).guard s = none ↔ zeros events < cfg.writeRetry := by
  rw [← h.count]
  simp only [sendLoop, ite_eq_right_iff, reduceCtorEq, imp_false, not_le]

theorem Tracks.not_error {events ys : List SendEvent} {s : SendState}
    (h : Tracks cfg response events s) (hguard : (sendLoop cfg response).guard s = none) :
    ¬ FirstErrorLate cfg response (events ++ .error :: ys) := by
  intro hlate
  rcases (firstErrorLate_error cfg response h.error ys).mp hlate with hexit | hretry | htotal
  · exact absurd hexit h.exit
  · exact absurd (h.guard_eq_none_iff.mp hguard) (Nat.not_lt.mpr hretry)
  · exact absurd h.unfinished (Nat.not_lt.mpr htotal)

theorem tracks_of_run (hne : response ≠ []) (hlen : response.length < 9223372036854775808)
    {events : List SendEvent} {s : SendState} (hlate : FirstErrorLate cfg response events)
    (hrun : (sendLoop cfg response).run sendStart events = .inl s) :
    Tracks cfg response events s := by
  refine (sendLoop cfg response).run_invariant
    (I := fun xs s => FirstErrorLate cfg response xs → Tracks cfg response xs s)
    (fun _ => tracks_start hne) ?_ hrun hlate
  intro xs s e t htracks hguard hbody hlate
  have h := htracks hlate.of_append
  change sendBody cfg response s e = .inl t at hbody
  cases e with
  | exit => simp [sendBody] at hbody
  | error => exact absurd hlate (h.not_error hguard)
  | room capacity =>
    have hroom := h.sendBody_room hlen capacity
    split_ifs at hroom with hdone
    · cases hroom.symm.trans hbody
    · obtain ⟨u, hnext, hu⟩ := hroom
      cases hnext.symm.trans hbody
      exact hu

theorem run_of_open (hne : response ≠ []) (hlen : response.length < 9223372036854775808)
    {events : List SendEvent} (hexit : .exit ∉ events) (herror : .error ∉ events)
    (hretry : zeros events < cfg.writeRetry) (htotal : total cfg events < response.length) :
    ∃ s, (sendLoop cfg response).run sendStart events = .inl s ∧
      Tracks cfg response events s := by
  induction events using List.reverseRecOn with
  | nil => exact ⟨sendStart, rfl, tracks_start hne⟩
  | append_singleton xs e ih =>
    simp only [List.mem_append, List.mem_singleton, not_or, zeros_append, total_append]
      at hexit herror hretry htotal
    obtain ⟨s, hrun, h⟩ := ih hexit.1 herror.1 (by omega) (by omega)
    have hguard := h.guard_eq_none_iff.mpr (by omega)
    cases e with
    | exit => exact absurd rfl hexit.2
    | error => exact absurd rfl herror.2
    | room capacity =>
      have hroom := h.sendBody_room hlen capacity
      rw [if_neg (by rw [total_append]; omega)] at hroom
      obtain ⟨t, hnext, ht⟩ := hroom
      refine ⟨t, ?_, ht⟩
      simp only [EventLoop.run_concat, hrun, pass_eq hguard, hnext]

theorem Tracks.partly {events : List SendEvent} {s : SendState}
    (h : Tracks cfg response events s) : s.accepted <+: response ∧ s.accepted ≠ response := by
  have hlength := h.accepted_length
  have hopen := h.unfinished
  refine ⟨h.accepted ▸ List.take_prefix _ _, fun heq => ?_⟩
  rw [heq] at hlength
  omega

/-- A failing `send` either passes for a complete delivery or winds the counter
of sent bytes back by one. -/
theorem Tracks.sendBody_error {events : List SendEvent} {s : SendState}
    (h : Tracks cfg response events s) (hlen : response.length < 9223372036854775808) :
    sendBody cfg response s .error =
      if total cfg events = 0 then .inr (.ok, [])
      else .inl { s with sentMessageLength := s.sentMessageLength - 1 } := by
  have hopen := h.unfinished
  have hnone : s.accepted ++ (response.drop s.sentMessageLength.toNat).take (Int.toNat (-1)) =
      s.accepted := by simp
  have hcount : ¬ toSizeT (-1) ≤ 0 := by decide
  simp only [sendBody, reduceCtorEq, if_false, sendResult, hnone, if_neg hcount]
  by_cases hzero : total cfg events = 0
  · have hsent : s.sentMessageLength = 0 := by rw [h.sent, hzero]; rfl
    have haccepted : s.accepted = [] := by rw [h.accepted, hzero, List.take_zero]
    have hwrap : toSizeT (toInt64 (toSizeT 0 + toSizeT (-1))) = 18446744073709551615 := by decide
    rw [hsent, hwrap, haccepted, if_pos (by omega), if_pos hzero]
  · have hback : toInt64 (toSizeT s.sentMessageLength + toSizeT (-1)) = s.sentMessageLength - 1 := by
      rw [h.sent]
      unfold toInt64 toSizeT
      omega
    have hless : toSizeT (s.sentMessageLength - 1) = s.sentMessageLength - 1 := by
      rw [h.sent]
      unfold toSizeT
      omega
    rw [hback, hless, if_neg (by rw [h.sent]; omega), if_neg hzero]

theorem serviceWrite_sent (hne : response ≠ []) (hlen : response.length < 9223372036854775808)
    {setsockopt : Int} {events : List SendEvent} {status : NetworkWriterStatus} {accepted : Bytes}
    (hlate : setsockopt ≠ 0 ∨ FirstErrorLate cfg response events)
    (h : serviceWrite cfg response setsockopt events = some (status, accepted)) :
    accepted <+: response ∧ (status = .ok ↔ accepted = response) := by
  unfold serviceWrite at h
  split_ifs at h with hcode
  · cases h
    exact ⟨List.nil_prefix, iff_of_false NetworkWriterStatus.noConfusion hne.symm⟩
  replace hlate := hlate.resolve_left hcode
  obtain ⟨xs, ys, s, rfl, hrun, hreturn⟩ := (sendLoop cfg response).result_eq_some_iff.mp h
  have htracks := tracks_of_run hne hlen hlate.of_append hrun
  have hpart := htracks.partly
  rcases hreturn with hguard | ⟨e, zs, rfl, hguard, hbody⟩
  · simp only [sendLoop, Option.ite_none_right_eq_some, Option.some.injEq, Prod.mk.injEq] at hguard
    obtain ⟨-, rfl, rfl⟩ := hguard
    exact ⟨hpart.1, iff_of_false NetworkWriterStatus.noConfusion hpart.2⟩
  change sendBody cfg response s e = .inr (status, accepted) at hbody
  cases e with
  | exit =>
    cases hbody
    exact ⟨hpart.1, iff_of_false NetworkWriterStatus.noConfusion hpart.2⟩
  | error => exact absurd hlate (htracks.not_error hguard)
  | room capacity =>
    have hroom := htracks.sendBody_room hlen capacity
    split_ifs at hroom with hdone
    · cases hroom.symm.trans hbody
      exact ⟨List.prefix_refl _, iff_of_true rfl rfl⟩
    · obtain ⟨t, hnext, -⟩ := hroom
      cases hnext.symm.trans hbody

/-- A write reported OK was delivered, and every loop head counts what is out. -/
def Delivers (cfg : WriterConfig) (response : Bytes) (setsockopt : Int)
    (events : List SendEvent) : Prop :=
  (∀ accepted, serviceWrite cfg response setsockopt events = some (.ok, accepted) →
    accepted = response) ∧
  (setsockopt = 0 → ∀ xs ys s, events = xs ++ ys →
    (sendLoop cfg response).run sendStart xs = .inl s →
    s.sentMessageLength = s.accepted.length ∧ s.accepted.length ≤ response.length)

theorem delivers_of_late (hne : response ≠ []) (hlen : response.length < 9223372036854775808)
    {events : List SendEvent} (hlate : FirstErrorLate cfg response events) :
    Delivers cfg response 0 events := by
  constructor
  · exact fun accepted h => (serviceWrite_sent hne hlen (.inr hlate) h).2.mp rfl
  · rintro - xs ys s rfl hrun
    have htracks := tracks_of_run hne hlen hlate.of_append hrun
    have hlength := htracks.accepted_length
    have hopen := htracks.unfinished
    exact ⟨by rw [htracks.sent, hlength], by omega⟩

theorem late_of_delivers (hne : response ≠ []) (hlen : response.length < 9223372036854775808)
    {events : List SendEvent} (h : Delivers cfg response 0 events) :
    FirstErrorLate cfg response events := by
  intro hmem
  obtain ⟨ys, hsplit, herror⟩ := eq_beforeError_append hmem
  generalize beforeError events = xs at hsplit herror
  by_contra hno
  simp only [not_or, not_le] at hno
  obtain ⟨hexit, hretry, htotal⟩ := hno
  obtain ⟨s, hrun, htracks⟩ := run_of_open hne hlen hexit herror hretry htotal
  have hguard := htracks.guard_eq_none_iff.mpr hretry
  have hbody := htracks.sendBody_error hlen
  have hconcat : (sendLoop cfg response).run sendStart (xs ++ [.error]) =
      sendBody cfg response s .error := by
    simp only [EventLoop.run_concat, hrun, pass_eq hguard]
  have hsplit' : events = (xs ++ [.error]) ++ ys := by simpa using hsplit
  by_cases hzero : total cfg xs = 0
  · rw [hbody, if_pos hzero] at hconcat
    have hok : serviceWrite cfg response 0 events = some (.ok, []) := by
      simp only [serviceWrite, ne_eq, not_true_eq_false, if_false, EventLoop.result, hsplit',
        (sendLoop cfg response).run_append_inr hconcat]
    exact hne (h.1 [] hok).symm
  · rw [hbody, if_neg hzero] at hconcat
    have hbooks := (h.2 rfl (xs ++ [.error]) ys _ hsplit' hconcat).1
    have hlength := htracks.accepted_length
    simp only [htracks.sent] at hbooks
    omega

/-- The exact condition for a call to deliver what it reports: `setsockopt`
fails, or no failing `send` is reached before the loop is over. -/
theorem serviceWrite_delivers_iff (hne : response ≠ [])
    (hlen : response.length < 9223372036854775808) (setsockopt : Int) (events : List SendEvent) :
    Delivers cfg response setsockopt events ↔
      setsockopt ≠ 0 ∨ FirstErrorLate cfg response events := by
  by_cases hcode : setsockopt = 0
  · subst hcode
    constructor
    · exact fun h => .inr (late_of_delivers hne hlen h)
    · rintro (hcode | hlate)
      · exact absurd rfl hcode
      · exact delivers_of_late hne hlen hlate
  · refine iff_of_true ⟨fun accepted h => ?_, fun hzero => absurd hzero hcode⟩ (.inl hcode)
    rw [serviceWrite, if_pos hcode] at h
    cases h

def shippedConfig : WriterConfig where
  writeRetry := 10
  bufferSize := 1024
  writeRetry_le := by decide
  bufferSize_ge := Nat.le_add_right 512 512
  bufferSize_le := Nat.le_add_right 1024 101376

theorem serviceWrite_delivers_ok :
    Delivers shippedConfig [79, 75] 0 [.room 1, .room 0, .room 1] ∧
      serviceWrite shippedConfig [79, 75] 0 [.room 1, .room 0, .room 1] = some (.ok, [79, 75]) :=
  ⟨(serviceWrite_delivers_iff (by decide) (by decide) 0 _).mpr (by decide), by decide⟩

/-- The first `send` fails: the call answers OK and nothing has gone out. -/
theorem serviceWrite_first_error :
    serviceWrite shippedConfig [79, 75] 0 [.error] = some (.ok, []) ∧
      ¬ Delivers shippedConfig [79, 75] 0 [.error] :=
  ⟨by decide, fun h => absurd (h.1 [] (by decide)) (by decide)⟩

end MultiplexServer.NetworkWriterService

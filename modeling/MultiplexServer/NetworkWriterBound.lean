import MultiplexServer.NetworkWriterDelivery

/-! How many `send` calls one call makes, and which of them count as failed. An
empty result advances the error count and bytes advance the sent length; a failing
`send` advances neither, and takes one byte back from the sent length. -/

namespace MultiplexServer.NetworkWriterService
open Strings EventLoop

variable {cfg : WriterConfig} {response : Bytes}

def SendEvent.fails : SendEvent → Bool
  | .error => true
  | .room 0 => true
  | _ => false

def failedSends (events : List SendEvent) : Nat := events.countP SendEvent.fails

/-- After a successful `setsockopt`: the loop is left in time, every failed `send`
it reaches advances the error count, and as many as the limit end it. -/
structure CountsFailures (cfg : WriterConfig) (response : Bytes)
    (events : Nat → SendEvent) : Prop where
  bounded : ∃ k ≤ response.length + cfg.writeRetry,
    (serviceWrite cfg response 0 (firstEvents events k)).isSome
  counted : ∀ k s, (sendLoop cfg response).run sendStart (firstEvents events k) = .inl s →
    (sendLoop cfg response).guard s = none → sendResult cfg response s (events k) ≤ 0 →
    ∃ t, sendBody cfg response s (events k) = .inl t ∧
      t.errorLoopCount = s.errorLoopCount + 1
  gaveUp : ∀ k s, (sendLoop cfg response).run sendStart (firstEvents events k) = .inl s →
    cfg.writeRetry ≤ failedSends (firstEvents events k) →
    serviceWrite cfg response 0 (firstEvents events k) = some (.networkError, s.accepted)

theorem serviceWrite_of_run {events : List SendEvent} {s : SendState}
    (h : (sendLoop cfg response).run sendStart events = .inl s) :
    serviceWrite cfg response 0 events = (sendLoop cfg response).guard s := by
  simp only [serviceWrite, ne_eq, not_true_eq_false, if_false, EventLoop.result, h]

theorem failedSends_eq_zeros {events : List SendEvent} (h : .error ∉ events) :
    failedSends events = zeros events := by
  refine List.countP_congr fun e he => ?_
  cases e with
  | exit => simp [SendEvent.fails]
  | error => exact absurd he h
  | room capacity => cases capacity <;> simp [SendEvent.fails]

theorem length_le_progress {events : List SendEvent} (hexit : .exit ∉ events)
    (herror : .error ∉ events) : events.length ≤ zeros events + total cfg events := by
  have hbuffer := cfg.bufferSize_ge
  induction events with
  | nil => exact Nat.zero_le _
  | cons e events ih =>
    simp only [List.mem_cons, not_or] at hexit herror
    have hrest := ih hexit.2 herror.2
    have hsplit : e :: events = [e] ++ events := rfl
    rw [hsplit, zeros_append, total_append, List.length_append, List.length_singleton]
    cases e with
    | exit => exact absurd rfl hexit.1
    | error => exact absurd rfl herror.1
    | room capacity =>
      rw [zeros_room, total_room]
      split_ifs with hzero
      · omega
      · omega

theorem Tracks.length_lt {events : List SendEvent} {s : SendState}
    (h : Tracks cfg response events s) (hretry : zeros events < cfg.writeRetry) :
    events.length < response.length + cfg.writeRetry := by
  have hprogress : events.length ≤ zeros events + total cfg events :=
    length_le_progress h.exit h.error
  have hopen := h.unfinished
  omega

theorem Tracks.not_late {events : List SendEvent} {s : SendState}
    (h : Tracks cfg response events s) (hguard : (sendLoop cfg response).guard s = none) :
    ¬ FirstErrorLate cfg response (events ++ [.error]) := by
  rw [firstErrorLate_error cfg response h.error]
  have hretry := h.guard_eq_none_iff.mp hguard
  have hopen := h.unfinished
  rintro (hexit | hretry' | htotal)
  · exact h.exit hexit
  · omega
  · omega

theorem countsFailures_of_late (hne : response ≠ [])
    (hlen : response.length < 9223372036854775808) {events : Nat → SendEvent}
    (hexit : ∀ k, events k ≠ .exit)
    (hlate : ∀ k, FirstErrorLate cfg response (firstEvents events k)) :
    CountsFailures cfg response events where
  bounded := by
    refine ⟨_, le_rfl, ?_⟩
    rw [Option.isSome_iff_ne_none]
    intro hnone
    cases hrun : (sendLoop cfg response).run sendStart
        (firstEvents events (response.length + cfg.writeRetry)) with
    | inr r =>
      simp only [serviceWrite, ne_eq, not_true_eq_false, if_false, EventLoop.result, hrun] at hnone
      cases hnone
    | inl s =>
      rw [serviceWrite_of_run hrun] at hnone
      have h := tracks_of_run hne hlen (hlate _) hrun
      have hshort := h.length_lt (h.guard_eq_none_iff.mp hnone)
      simp [firstEvents] at hshort
  counted := by
    intro k s hrun hguard hfailed
    have h := tracks_of_run hne hlen (hlate k) hrun
    cases he : events k with
    | exit => exact absurd he (hexit k)
    | error =>
      have hnext := hlate (k + 1)
      rw [firstEvents_succ, he] at hnext
      exact absurd hnext (h.not_late hguard)
    | room capacity =>
      have hopen := h.unfinished
      have hbuffer := cfg.bufferSize_ge
      rw [he, h.sendResult_room hlen] at hfailed
      rw [h.sendBody_eq hlen, if_pos (by omega)]
      exact ⟨_, rfl, rfl⟩
  gaveUp := by
    intro k s hrun hmany
    have h := tracks_of_run hne hlen (hlate k) hrun
    rw [failedSends_eq_zeros h.error, ← h.count] at hmany
    rw [serviceWrite_of_run hrun]
    exact if_pos hmany

theorem late_of_countsFailures (hne : response ≠ [])
    (hlen : response.length < 9223372036854775808) {events : Nat → SendEvent}
    (h : CountsFailures cfg response events) (k : Nat) :
    FirstErrorLate cfg response (firstEvents events k) := by
  intro hmem
  obtain ⟨ys, hsplit, herror⟩ := eq_beforeError_append hmem
  generalize beforeError (firstEvents events k) = xs at hsplit herror
  by_contra hno
  simp only [not_or, not_le] at hno
  obtain ⟨hexit', hretry, htotal⟩ := hno
  obtain ⟨s, hrun, htracks⟩ := run_of_open hne hlen hexit' herror hretry htotal
  have hguard := htracks.guard_eq_none_iff.mpr hretry
  obtain ⟨hxs, hnext⟩ := firstEvents_split hsplit
  have he : events xs.length = .error := (hnext _ _ rfl).symm
  rw [hxs] at hrun
  have hfailed : sendResult cfg response s (events xs.length) ≤ 0 := by
    rw [he]
    exact (by decide : (-1 : Int) ≤ 0)
  obtain ⟨t, hbody, hcount⟩ := h.counted xs.length s hrun hguard hfailed
  rw [he, htracks.sendBody_error hlen] at hbody
  split_ifs at hbody with hzero
  cases hbody
  simp at hcount

/-- The send loop is bounded and counts its failures exactly when it never reaches
a `send` that answers `-1`. -/
theorem countsFailures_iff (hne : response ≠ [])
    (hlen : response.length < 9223372036854775808) {events : Nat → SendEvent}
    (hexit : ∀ k, events k ≠ .exit) :
    CountsFailures cfg response events ↔
      ∀ k, FirstErrorLate cfg response (firstEvents events k) :=
  ⟨late_of_countsFailures hne hlen, countsFailures_of_late hne hlen hexit⟩

theorem countsFailures_full :
    CountsFailures shippedConfig [79, 75] (fun _ => .room 0) := by
  refine (countsFailures_iff (by decide) (by decide) (fun _ => by decide)).mpr fun k hmem => ?_
  simp [firstEvents] at hmem

def backAndForth (k : Nat) : SendEvent := if k % 2 = 0 then .room 1 else .error

theorem backAndForth_run (n : Nat) : ∃ accepted,
    (sendLoop shippedConfig [79, 75]).run sendStart (firstEvents backAndForth (2 * n)) =
      .inl ⟨0, 0, accepted⟩ := by
  induction n with
  | zero => exact ⟨[], rfl⟩
  | succ n ih =>
    obtain ⟨accepted, hrun⟩ := ih
    have hfirst : backAndForth (2 * n) = .room 1 := if_pos (by omega)
    have hsecond : backAndForth (2 * n + 1) = .error := if_neg (by omega)
    refine ⟨(accepted ++ [79]) ++ [], ?_⟩
    rw [Nat.mul_succ, firstEvents_succ, firstEvents_succ, hfirst, hsecond, List.append_assoc,
      (sendLoop shippedConfig [79, 75]).run_append_inl hrun]
    rfl

theorem backAndForth_never_returns :
    (∀ k, serviceWrite shippedConfig [79, 75] 0 (firstEvents backAndForth k) = none) ∧
    ¬ CountsFailures shippedConfig [79, 75] backAndForth := by
  have hnone : ∀ k, serviceWrite shippedConfig [79, 75] 0 (firstEvents backAndForth k) = none := by
    intro k
    by_contra hsome
    obtain ⟨r, hr⟩ := Option.ne_none_iff_exists'.mp hsome
    obtain ⟨ys, hys⟩ := firstEvents_le backAndForth (show k ≤ 2 * k by omega)
    obtain ⟨accepted, hrun⟩ := backAndForth_run k
    have hlater := (sendLoop shippedConfig [79, 75]).result_append hr ys
    rw [← hys, EventLoop.result, hrun] at hlater
    cases hlater
  refine ⟨hnone, fun h => ?_⟩
  obtain ⟨k, -, hk⟩ := h.bounded
  rw [hnone k] at hk
  cases hk

end MultiplexServer.NetworkWriterService

import MultiplexServer.NetworkReaderExceptions

/-! How many `recv` calls one call makes. A failing `recv` advances the error count
and a chunk lengthens the message, unless it begins with a NUL: nothing of such a
chunk is appended, and no other counter notices it. -/

namespace MultiplexServer.NetworkReaderService
open Strings EventLoop

variable (cfg : ReaderConfig)

def recvBound : Nat := cfg.clientsMaxMessageSize + cfg.readRetry + 1

def LeavesWithin (service : Reader cfg) (setsockopt : Int) (events : Nat → RecvEvent)
    (bound : Nat) : Prop :=
  ∃ k ≤ bound, (serviceRead cfg service setsockopt (firstEvents events k)).isSome

def RecvEvent.startsWithNul : RecvEvent → Bool
  | .bytes (0 :: _) => true
  | _ => false

def nulChunks (events : List RecvEvent) : Nat := events.countP RecvEvent.startsWithNul

/-- The results that hold a reader for longer than the bound: none ends the call,
fewer than the limit fail, what the chunks leave in front of their first NULs can
still become a request, and two chunks or more leave nothing. -/
structure Holds (events : List RecvEvent) : Prop where
  waits : ∀ e ∈ events, e.Waits
  retries : failures events < cfg.readRetry
  text : Accepts cfg (received cfg events)
  nuls : 2 ≤ nulChunks events

theorem chunkText_pos {available : Bytes} (h : RecvEvent.Waits (.bytes available))
    (hnul : RecvEvent.startsWithNul (.bytes available) = false) :
    0 < (chunkText cfg (.bytes available)).length := by
  have hsize := cfg.bufferSize_ge
  cases available with
  | nil => exact absurd rfl h.2
  | cons c rest =>
    have hc : c ≠ 0 := by
      rintro rfl
      cases hnul
    obtain ⟨n, hn⟩ : ∃ n, cfg.bufferSize = n + 1 := ⟨cfg.bufferSize - 1, by omega⟩
    simp [chunkText, cString, hn, hc]

theorem length_le_progress {events : List RecvEvent} (h : ∀ e ∈ events, e.Waits) :
    events.length ≤ failures events + nulChunks events + (received cfg events).length := by
  induction events with
  | nil => exact Nat.zero_le _
  | cons e events ih =>
    have hrest := ih fun e he => h e (List.mem_cons_of_mem _ he)
    have hfirst := h e List.mem_cons_self
    have htext : (received cfg (e :: events)).length =
        (chunkText cfg e).length + (received cfg events).length := by
      simp [received]
    rw [htext]
    simp only [failures, nulChunks, List.length_cons, List.count_cons, List.countP_cons] at hrest ⊢
    cases e with
    | exit => exact absurd rfl hfirst.1
    | error =>
      simp only [beq_self_eq_true, if_true]
      omega
    | bytes available =>
      cases hnul : RecvEvent.startsWithNul (.bytes available) with
      | true =>
        simp only [if_true]
        omega
      | false =>
        have := chunkText_pos cfg hfirst hnul
        omega

theorem isSome_serviceRead_mono (service : Reader cfg) (setsockopt : Int)
    (events : Nat → RecvEvent) {j k : Nat} (hjk : j ≤ k)
    (h : (serviceRead cfg service setsockopt (firstEvents events j)).isSome) :
    (serviceRead cfg service setsockopt (firstEvents events k)).isSome := by
  obtain ⟨ys, hys⟩ := firstEvents_le events hjk
  unfold serviceRead at h ⊢
  split_ifs at h ⊢ with hcode
  · rfl
  · obtain ⟨r, hr⟩ := Option.isSome_iff_exists.mp h
    rw [hys, (readLoop cfg).result_append hr ys]
    rfl

theorem serviceRead_eq_none_iff (service : Reader cfg) (events : List RecvEvent) :
    serviceRead cfg service 0 events = none ↔
      Waiting cfg events ∧ failures events < cfg.readRetry := by
  simp only [serviceRead, ne_eq, not_true_eq_false, if_false, EventLoop.result]
  constructor
  · intro h
    cases hrun : (readLoop cfg).run (readStart cfg service) events with
    | inr r => simp only [hrun] at h; cases h
    | inl s =>
      obtain ⟨hw, ht⟩ := waiting_of_run cfg service hrun
      simp only [hrun] at h
      exact ⟨hw, ht.guard_eq_none_iff.mp h⟩
  · rintro ⟨hw, hretry⟩
    obtain ⟨s, hrun, ht⟩ := run_waiting cfg service hw
    simp only [hrun]
    exact ht.guard_eq_none_iff.mpr hretry

theorem Holds.waiting {events : List RecvEvent} (h : Holds cfg events) : Waiting cfg events where
  waits := h.waits
  retries := .inr (lt_of_le_of_lt (failures_dropLast_le events) h.retries)
  accepts := h.text

/-- The loop is left within the bound exactly when its first results do not hold
the reader. -/
theorem leavesWithin_iff (service : Reader cfg) (setsockopt : Int) (events : Nat → RecvEvent) :
    LeavesWithin cfg service setsockopt events (recvBound cfg) ↔
      setsockopt ≠ 0 ∨ ¬ Holds cfg (firstEvents events (recvBound cfg)) := by
  by_cases hcode : setsockopt = 0
  · subst hcode
    have hwhole : LeavesWithin cfg service 0 events (recvBound cfg) ↔
        (serviceRead cfg service 0 (firstEvents events (recvBound cfg))).isSome :=
      ⟨fun ⟨_, hk, h⟩ => isSome_serviceRead_mono cfg service 0 events hk h,
        fun h => ⟨recvBound cfg, le_rfl, h⟩⟩
    have hholds : serviceRead cfg service 0 (firstEvents events (recvBound cfg)) = none ↔
        Holds cfg (firstEvents events (recvBound cfg)) := by
      rw [serviceRead_eq_none_iff]
      constructor
      · rintro ⟨hw, hretry⟩
        refine ⟨hw.waits, hretry, hw.accepts, ?_⟩
        have hlen : (firstEvents events (recvBound cfg)).length = recvBound cfg := by
          simp [firstEvents]
        have hmax := hw.accepts.1
        have hprogress := length_le_progress cfg hw.waits
        rw [hlen] at hprogress
        unfold recvBound at hprogress hmax hretry ⊢
        omega
      · exact fun h => ⟨h.waiting cfg, h.retries⟩
    rw [hwhole, ← hholds, Option.isSome_iff_ne_none]
    simp
  · refine iff_of_true ⟨0, Nat.zero_le _, ?_⟩ (.inl hcode)
    rw [serviceRead, if_pos hcode]
    rfl

def nuls : Nat → RecvEvent := fun _ => .bytes [0]

theorem nuls_hold :
    (∀ k, serviceRead shippedConfig default 0 (firstEvents nuls k) = none) ∧
    (∀ k, ¬ HeaderOverflows shippedConfig (received shippedConfig (firstEvents nuls k))) ∧
    ¬ LeavesWithin shippedConfig default 0 nuls (recvBound shippedConfig) := by
  have hnone : ∀ k, failures (firstEvents nuls k) = 0 ∧
      received shippedConfig (firstEvents nuls k) = [] := by
    intro k
    induction k with
    | zero => exact ⟨rfl, rfl⟩
    | succ k ih =>
      rw [firstEvents_succ, failures_append, received_append, ih.1, ih.2]
      exact ⟨rfl, by simp [nuls, chunkText, cString, shippedConfig]⟩
  have hcall : ∀ k, serviceRead shippedConfig default 0 (firstEvents nuls k) = none := by
    intro k
    rw [serviceRead_eq_none_iff, (hnone k).1]
    refine ⟨⟨?_, .inr ?_, ?_⟩, by decide⟩
    · intro e he
      simp only [firstEvents, nuls, List.mem_map] at he
      obtain ⟨-, -, rfl⟩ := he
      decide
    · exact lt_of_le_of_lt ((failures_dropLast_le _).trans (hnone k).1.le) (by decide)
    · rw [(hnone k).2]
      exact accepts_nil shippedConfig
  refine ⟨hcall, fun k => ?_, ?_⟩
  · rw [(hnone k).2]
    exact (accepts_nil shippedConfig).not_overflows
  · rintro ⟨k, -, hk⟩
    rw [hcall k] at hk
    cases hk

end MultiplexServer.NetworkReaderService

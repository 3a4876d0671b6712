import MultiplexServer.NetworkReaderLoop

/-! The framing a reader accepts: a call succeeds exactly when the text in front of
the deciding failing `recv` is one length-prefixed message of the announced length. -/

namespace MultiplexServer.NetworkReaderService
open Strings

variable (cfg : ReaderConfig)

theorem afterLoop_ok_iff {xs : List RecvEvent} {s : ReadState cfg} (hw : Waiting cfg xs)
    (ht : Tracks cfg xs s) :
    (afterLoop cfg s).1 = .ok ↔ Frames cfg (received cfg xs) := by
  have hverdict : (afterLoop cfg s).1 = .ok ↔
      0 < s.headerMessageLength ∧ s.resultBuffer.length = s.headerMessageLength := by
    unfold afterLoop
    split_ifs with h1 h2
    · exact iff_of_true rfl h1
    · exact iff_of_false (by decide) h1
    · exact iff_of_false (by decide) h1
  rw [hverdict, ht.header, ht.buffer]
  by_cases hn : cfg.protocolHeaderSizeLength < (received cfg xs).length
  · have hpos := headerOf_pos cfg hw.accepts hn
    obtain ⟨hhead, -⟩ := hw.accepts.2 hn
    have hmax := hw.accepts.1
    rw [headerOf, if_pos hn] at hpos ⊢
    constructor
    · rintro ⟨-, hlen⟩
      exact ⟨hn, hmax, hhead, by omega⟩
    · rintro ⟨-, -, -, hlen⟩
      exact ⟨hpos, by omega⟩
  · rw [headerOf_short cfg hn]
    constructor
    · rintro ⟨hpos, -⟩
      omega
    · rintro ⟨hlong, -⟩
      exact absurd hlong hn

theorem afterLoop_payload {xs : List RecvEvent} {s : ReadState cfg} (ht : Tracks cfg xs s)
    (h : (afterLoop cfg s).1 = .ok) :
    (afterLoop cfg s).2.resultBuffer =
      (received cfg xs).drop cfg.protocolHeaderSizeLength := by
  unfold afterLoop at h ⊢
  split_ifs at h ⊢ with h1
  simp [ht.service, ht.buffer]

/-- The `readRetry`-th failing `recv` comes after these events. -/
def LastRetry (pre : List RecvEvent) : Prop :=
  (∀ e ∈ pre, e.Waits) ∧ failures pre + 1 = cfg.readRetry

instance (pre : List RecvEvent) : Decidable (LastRetry cfg pre) :=
  inferInstanceAs (Decidable (_ ∧ _))

theorem LastRetry.unique {pre pre' post post' : List RecvEvent} (h : LastRetry cfg pre)
    (h' : LastRetry cfg pre') (hsplit : pre ++ .error :: post = pre' ++ .error :: post') :
    pre' = pre := by
  have hcount := h.2.trans h'.2.symm
  rcases List.append_eq_append_iff.mp hsplit with ⟨as, has, has'⟩ | ⟨bs, hbs, hbs'⟩
  · cases as with
    | nil => simpa using has
    | cons a as =>
      cases has'
      rw [has, failures_append] at hcount
      have : 0 < failures (.error :: as) := by simp [failures]
      omega
  · cases bs with
    | nil => simpa using hbs.symm
    | cons b bs =>
      cases hbs'
      rw [hbs, failures_append] at hcount
      have : 0 < failures (.error :: bs) := by simp [failures]
      omega

theorem LastRetry.waiting {pre : List RecvEvent} (h : LastRetry cfg pre)
    (ha : Accepts cfg (received cfg pre)) : Waiting cfg (pre ++ [.error]) where
  waits := by
    intro e he
    rcases List.mem_append.mp he with he | he
    · exact h.1 e he
    · rw [List.mem_singleton.mp he]
      exact ⟨by simp, by simp⟩
  retries := .inr (by rw [List.dropLast_concat]; have := h.2; omega)
  accepts := by simpa [chunkText] using ha

theorem Waiting.lastRetry {xs : List RecvEvent} (h : Waiting cfg xs) (hne : xs ≠ [])
    (hr : cfg.readRetry ≤ failures xs) : ∃ pre, xs = pre ++ [.error] ∧ LastRetry cfg pre := by
  obtain ⟨pre, e, rfl⟩ := List.eq_nil_or_concat' xs |>.resolve_left hne
  obtain ⟨hpre, -, hlt⟩ := h.of_concat cfg
  have he : e = .error := by
    by_contra hother
    have : failures [e] = 0 := by simp [failures, hother]
    rw [failures_append] at hr
    omega
  subst he
  refine ⟨pre, rfl, hpre.waits, ?_⟩
  have : failures [RecvEvent.error] = 1 := rfl
  rw [failures_append] at hr
  omega

theorem serviceRead_ok {service out : Reader cfg} {events : List RecvEvent}
    (h : serviceRead cfg service 0 events = some (.ok (.ok, out))) :
    ∃ pre post, events = pre ++ .error :: post ∧ LastRetry cfg pre ∧
      Frames cfg (received cfg pre) ∧
      out.resultBuffer = (received cfg pre).drop cfg.protocolHeaderSizeLength := by
  simp only [serviceRead, ne_eq, not_true_eq_false, if_false] at h
  obtain ⟨xs, ys, s, rfl, hrun, hreturn⟩ := (readLoop cfg).result_eq_some_iff.mp h
  obtain ⟨hw, ht⟩ := waiting_of_run cfg service hrun
  rcases hreturn with hguard | ⟨e, zs, -, -, hbody⟩
  · obtain ⟨hretry, hreturned⟩ := ht.guard_eq_some_iff.mp hguard
    have hverdict : (NetworkReaderStatus.ok, out) = afterLoop cfg s := Except.ok.inj hreturned
    have hok : (afterLoop cfg s).1 = .ok := by rw [← hverdict]
    have hframes := (afterLoop_ok_iff cfg hw ht).mp hok
    have hne : xs ≠ [] := by
      rintro rfl
      exact absurd hframes.1 (Nat.not_lt_zero _)
    obtain ⟨pre, rfl, hlast⟩ := hw.lastRetry cfg hne hretry
    have hpay := afterLoop_payload cfg ht hok
    have htext : received cfg (pre ++ [.error]) = received cfg pre := by simp [chunkText]
    rw [htext] at hframes hpay
    exact ⟨pre, ys, by simp, hlast, hframes, by rw [← hpay, ← hverdict]⟩
  · rcases readBody_returns cfg hw ht hbody with ⟨-, hr⟩ | ⟨-, -, status, out', hne, hr⟩
    · cases hr
    · cases hr
      exact absurd rfl hne

theorem serviceRead_of_frames (service : Reader cfg) {pre : List RecvEvent}
    (hlast : LastRetry cfg pre) (hframes : Frames cfg (received cfg pre))
    (post : List RecvEvent) :
    ∃ out, serviceRead cfg service 0 (pre ++ .error :: post) = some (.ok (.ok, out)) := by
  have hw := hlast.waiting cfg hframes.accepts
  obtain ⟨s, hrun, ht⟩ := run_waiting cfg service hw
  have hguard : (readLoop cfg).guard s = some (.ok (afterLoop cfg s)) := by
    have hcount : failures (pre ++ [RecvEvent.error]) = failures pre + 1 := by
      simp [failures]
    exact ht.guard_eq_some_iff.mpr ⟨by rw [hcount, hlast.2], rfl⟩
  have hok : (afterLoop cfg s).1 = .ok := by
    rw [afterLoop_ok_iff cfg hw ht]
    simpa [chunkText] using hframes
  refine ⟨(afterLoop cfg s).2, ?_⟩
  have hresult : (readLoop cfg).result (readStart cfg service) (pre ++ [.error]) =
      some (.ok (.ok, (afterLoop cfg s).2)) := by
    rw [EventLoop.result, hrun]
    simp only [hguard, ← hok]
  have hmore := (readLoop cfg).result_append hresult post
  rw [List.append_assoc] at hmore
  simpa [serviceRead] using hmore

/-- A call succeeds exactly on a framed text whose last failing `recv` is reached,
hands over the text behind the header, and leaves its loop nowhere before. -/
theorem serviceRead_ok_iff_frames (service : Reader cfg) (events : List RecvEvent) :
    ((∃ out, serviceRead cfg service 0 events = some (.ok (.ok, out))) ↔
      ∃ pre post, events = pre ++ .error :: post ∧ LastRetry cfg pre ∧
        Frames cfg (received cfg pre)) ∧
    (∀ out pre post, serviceRead cfg service 0 events = some (.ok (.ok, out)) →
      events = pre ++ .error :: post → LastRetry cfg pre →
      out.resultBuffer = (received cfg pre).drop cfg.protocolHeaderSizeLength) ∧
    (∀ pre post, events = pre ++ .error :: post → LastRetry cfg pre →
      Frames cfg (received cfg pre) → ∀ xs ys, pre ++ [.error] = xs ++ ys →
      ∃ s, (readLoop cfg).run (readStart cfg service) xs = .inl s ∧
        s.resultBuffer = received cfg xs) := by
  refine ⟨⟨?_, ?_⟩, ?_, ?_⟩
  · rintro ⟨out, h⟩
    obtain ⟨pre, post, rfl, hlast, hframes, -⟩ := serviceRead_ok cfg h
    exact ⟨pre, post, rfl, hlast, hframes⟩
  · rintro ⟨pre, post, rfl, hlast, hframes⟩
    exact serviceRead_of_frames cfg service hlast hframes post
  · rintro out pre post h hsplit hlast
    obtain ⟨pre', post', hsplit', hlast', -, hpay⟩ := serviceRead_ok cfg h
    rw [hpay, LastRetry.unique cfg hlast hlast' (hsplit.symm.trans hsplit')]
  · rintro pre post - hlast hframes xs ys hsplit
    have hw := hlast.waiting cfg hframes.accepts
    rw [hsplit] at hw
    obtain ⟨s, hrun, ht⟩ := run_waiting cfg service (hw.of_append cfg)
    exact ⟨s, hrun, ht.buffer⟩

end MultiplexServer.NetworkReaderService

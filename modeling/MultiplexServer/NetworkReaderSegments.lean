import MultiplexServer.NetworkReaderExceptions
import MultiplexServer.NetworkReaderFraming

/-! The same bytes of a peer, delivered in different chunks. A chunk is appended to
the message as a C string: what stands behind its first NUL is lost, so where a
chunk ends decides which bytes of a peer that sends NULs reach the message. -/

namespace MultiplexServer.NetworkReaderService
open Strings

variable (cfg : ReaderConfig)

def bytesOf : RecvEvent → Bytes
  | .bytes available => available
  | _ => []

/-- The peer's bytes arrive in these events: chunks that fit the buffer, between
fewer failing calls than the limit. -/
structure Delivers (peer : Bytes) (pre : List RecvEvent) : Prop where
  chunks : ∀ e ∈ pre, e = .error ∨
    ∃ chunk, e = .bytes chunk ∧ chunk ≠ [] ∧ chunk.length ≤ cfg.bufferSize
  bytes : pre.flatMap bytesOf = peer
  retries : failures pre < cfg.readRetry

def ReadsOk (service : Reader cfg) (pre : List RecvEvent) (payload : Bytes) : Prop :=
  ∃ out, serviceRead cfg service 0 (pre ++ List.replicate cfg.readRetry .error) =
    some (.ok (.ok, out)) ∧ out.resultBuffer = payload

/-- Any two deliveries of the peer's bytes are read alike, and what is read well
is the peer's bytes behind a header that counts them. -/
def SegmentationInvariant (peer : Bytes) : Prop :=
  ∀ (service service' : Reader cfg) (pre pre' : List RecvEvent),
    Delivers cfg peer pre → Delivers cfg peer pre' → ∀ payload,
    (ReadsOk cfg service pre payload ↔ ReadsOk cfg service' pre' payload) ∧
    (ReadsOk cfg service pre payload →
      payload = peer.drop cfg.protocolHeaderSizeLength ∧
      HasHeader cfg.protocolHeaderSizeLength peer ∧
      headerValue cfg.protocolHeaderSizeLength peer = peer.length)

/-- What is left of the peer's bytes when stretches of them that begin with a NUL
and fit the buffer go missing. -/
inductive Kept : Bytes → Bytes → Prop
  | nil : Kept [] []
  | keep {c : UInt8} {rest text : Bytes} : c ≠ 0 → Kept rest text → Kept (c :: rest) (c :: text)
  | drop {gap rest text : Bytes} : gap.length < cfg.bufferSize → Kept rest text →
      Kept (0 :: gap ++ rest) text

theorem Kept.append {peer text peer' text' : Bytes} (h : Kept cfg peer text)
    (h' : Kept cfg peer' text') : Kept cfg (peer ++ peer') (text ++ text') := by
  induction h with
  | nil => exact h'
  | keep hc _ ih => exact .keep hc ih
  | drop hgap _ ih =>
    rw [List.append_assoc]
    exact .drop hgap ih

theorem Kept.length_le {peer text : Bytes} (h : Kept cfg peer text) :
    text.length ≤ peer.length := by
  induction h with
  | nil => rfl
  | keep _ _ ih => simpa using ih
  | drop _ _ ih => simp only [List.length_append]; omega

theorem Kept.length_lt {peer text : Bytes} (h : Kept cfg peer text) (hnul : 0 ∈ peer) :
    text.length < peer.length := by
  induction h with
  | nil => cases hnul
  | keep hc _ ih =>
    have hrest := (List.mem_cons.mp hnul).resolve_left hc.symm
    simpa using ih hrest
  | drop _ hrest _ =>
    have := hrest.length_le
    simp only [List.length_append, List.length_cons]
    omega

theorem Kept.eq_of_not_mem {peer text : Bytes} (h : Kept cfg peer text) (hnul : 0 ∉ peer) :
    text = peer := by
  induction h with
  | nil => rfl
  | keep _ _ ih => rw [ih (fun hrest => hnul (List.mem_cons_of_mem _ hrest))]
  | drop _ _ _ => exact absurd (by simp) hnul

theorem kept_cString {chunk : Bytes} (h : chunk.length ≤ cfg.bufferSize) :
    Kept cfg chunk (cString chunk) := by
  induction chunk with
  | nil => exact .nil
  | cons c rest ih =>
    rw [List.length_cons] at h
    by_cases hc : c = 0
    · subst hc
      have hdrop : Kept cfg (0 :: rest ++ []) [] := .drop h .nil
      simpa [cString] using hdrop
    · have hrest := ih (by omega)
      simpa [cString, hc] using Kept.keep hc hrest

theorem Delivers.kept {peer : Bytes} {pre : List RecvEvent} (h : Delivers cfg peer pre) :
    Kept cfg peer (received cfg pre) := by
  obtain ⟨hchunks, rfl, -⟩ := h
  induction pre with
  | nil => exact .nil
  | cons e pre ih =>
    have hpre := ih fun e he => hchunks e (List.mem_cons_of_mem _ he)
    have hfirst : Kept cfg (bytesOf e) (chunkText cfg e) := by
      rcases hchunks e List.mem_cons_self with rfl | ⟨chunk, rfl, -, hsize⟩
      · exact .nil
      · simpa [bytesOf, chunkText, List.take_of_length_le hsize] using kept_cString cfg hsize
    exact hfirst.append cfg hpre

theorem Delivers.cons {peer chunk : Bytes} {pre : List RecvEvent} (h : Delivers cfg peer pre)
    (hne : chunk ≠ []) (hsize : chunk.length ≤ cfg.bufferSize) :
    Delivers cfg (chunk ++ peer) (.bytes chunk :: pre) where
  chunks := by
    intro e he
    rcases List.mem_cons.mp he with rfl | he
    · exact .inr ⟨chunk, rfl, hne, hsize⟩
    · exact h.chunks e he
  bytes := by rw [List.flatMap_cons, h.bytes]; rfl
  retries := by simpa [failures] using h.retries

theorem Kept.delivers {peer text : Bytes} (h : Kept cfg peer text) (hretry : 0 < cfg.readRetry) :
    ∃ pre, Delivers cfg peer pre ∧ received cfg pre = text := by
  have hsize := cfg.bufferSize_ge
  induction h with
  | nil => exact ⟨[], ⟨by simp, rfl, hretry⟩, rfl⟩
  | @keep c rest text hc _ ih =>
    obtain ⟨pre, hpre, rfl⟩ := ih
    have hfits : [c].length ≤ cfg.bufferSize := by
      rw [List.length_singleton]
      omega
    have htext : chunkText cfg (.bytes [c]) = [c] := by
      simp [chunkText, cString, List.take_of_length_le hfits, hc]
    refine ⟨.bytes [c] :: pre, hpre.cons cfg (List.cons_ne_nil c []) hfits, ?_⟩
    rw [received, List.flatMap_cons, htext]
    rfl
  | @drop gap rest text hgap _ ih =>
    obtain ⟨pre, hpre, rfl⟩ := ih
    have hfits : (0 :: gap).length ≤ cfg.bufferSize := hgap
    have htext : chunkText cfg (.bytes (0 :: gap)) = [] := by
      simp [chunkText, cString, List.take_of_length_le hfits]
    refine ⟨.bytes (0 :: gap) :: pre, hpre.cons cfg (by simp) hfits, ?_⟩
    rw [received, List.flatMap_cons, htext]
    rfl

theorem Delivers.waits {peer : Bytes} {pre : List RecvEvent} (h : Delivers cfg peer pre) :
    ∀ e ∈ pre, e.Waits := by
  intro e he
  rcases h.chunks e he with rfl | ⟨chunk, rfl, hne, -⟩
  · exact ⟨by simp, by simp⟩
  · exact ⟨by simp, by simpa using hne⟩

theorem Delivers.lastRetry {peer : Bytes} {pre : List RecvEvent} (h : Delivers cfg peer pre) :
    ∃ more post, pre ++ List.replicate cfg.readRetry RecvEvent.error =
        (pre ++ more) ++ .error :: post ∧
      LastRetry cfg (pre ++ more) ∧ received cfg (pre ++ more) = received cfg pre := by
  have hretries := h.retries
  refine ⟨List.replicate (cfg.readRetry - failures pre - 1) .error,
    List.replicate (failures pre) .error, ?_, ⟨?_, ?_⟩, ?_⟩
  · rw [← List.replicate_succ, List.append_assoc, ← List.replicate_add]
    congr 2
    omega
  · intro e he
    rcases List.mem_append.mp he with he | he
    · exact h.waits cfg e he
    · rw [List.eq_of_mem_replicate he]
      exact ⟨by simp, by simp⟩
  · simp only [failures_append]
    simp only [failures, List.count_replicate_self] at hretries ⊢
    omega
  · have hnone : ∀ k, received cfg (List.replicate k .error) = [] := by
      intro k
      simp [received, List.flatMap_eq_nil_iff, List.mem_replicate, chunkText]
    rw [received_append, hnone, List.append_nil]

theorem readsOk_iff {peer payload : Bytes} {pre : List RecvEvent} (service : Reader cfg)
    (h : Delivers cfg peer pre) :
    ReadsOk cfg service pre payload ↔ Frames cfg (received cfg pre) ∧
      payload = (received cfg pre).drop cfg.protocolHeaderSizeLength := by
  obtain ⟨more, post, hsplit, hlast, htext⟩ := h.lastRetry cfg
  constructor
  · rintro ⟨out, hcall, rfl⟩
    obtain ⟨pre', post', hsplit', hlast', hframes, hpay⟩ := serviceRead_ok cfg hcall
    obtain rfl := LastRetry.unique cfg hlast hlast' (hsplit.symm.trans hsplit')
    rw [htext] at hframes hpay
    exact ⟨hframes, hpay⟩
  · rintro ⟨hframes, rfl⟩
    rw [← htext] at hframes
    obtain ⟨out, hcall⟩ := serviceRead_of_frames cfg service hlast hframes post
    rw [← hsplit] at hcall
    refine ⟨out, hcall, ?_⟩
    obtain ⟨pre', post', hsplit', hlast', -, hpay⟩ := serviceRead_ok cfg hcall
    obtain rfl := LastRetry.unique cfg hlast hlast' (hsplit.symm.trans hsplit')
    rw [hpay, htext]

/-- Segmentation does not matter exactly for the peers from whose bytes no loss
behind a NUL makes a complete request. -/
theorem segmentationInvariant_iff (peer : Bytes) :
    SegmentationInvariant cfg peer ↔
      cfg.readRetry = 0 ∨ 0 ∉ peer ∨ ¬ ∃ text, Kept cfg peer text ∧ Frames cfg text := by
  constructor
  · intro h
    by_contra hno
    simp only [not_or, not_not] at hno
    obtain ⟨hretry, hnul, text, hkept, hframes⟩ := hno
    have hlost := hkept.length_lt cfg hnul
    obtain ⟨pre, hpre, rfl⟩ := hkept.delivers cfg (by omega)
    have hok := (readsOk_iff cfg default hpre).mpr ⟨hframes, rfl⟩
    obtain ⟨hpay, -⟩ := (h default default pre pre hpre hpre _).2 hok
    have hlen := congrArg List.length hpay
    have hlong := hframes.1
    simp only [List.length_drop] at hlen
    omega
  · intro h service service' pre pre' hpre hpre' payload
    rw [readsOk_iff cfg service hpre, readsOk_iff cfg service' hpre']
    rcases h with hretry | hnul | hno
    · have := hpre.retries
      omega
    · rw [(hpre.kept cfg).eq_of_not_mem cfg hnul, (hpre'.kept cfg).eq_of_not_mem cfg hnul]
      exact ⟨Iff.rfl, fun ⟨hframes, hpay⟩ => ⟨hpay, hframes.2.2.1, hframes.2.2.2⟩⟩
    · have hnever : ∀ text, Kept cfg peer text → ¬ Frames cfg text := fun text hkept hframes =>
        hno ⟨text, hkept, hframes⟩
      simp only [hnever _ (hpre.kept cfg), hnever _ (hpre'.kept cfg), false_and, IsEmpty.forall_iff,
        and_self]

def nulMessage : Bytes := List.replicate 13 48 ++ [49, 54, 120, 0, 121]

/-- In one chunk the message ends at the NUL and is complete; cut behind the NUL it
is one byte too long. -/
theorem nulMessage_segmented :
    ReadsOk shippedConfig default [.bytes nulMessage] [120] ∧
    ¬ ReadsOk shippedConfig default [.bytes (nulMessage.take 17), .bytes [121]] [120] ∧
    ¬ SegmentationInvariant shippedConfig nulMessage := by
  have hone : Delivers shippedConfig nulMessage [.bytes nulMessage] :=
    ⟨by simp [nulMessage, shippedConfig], by decide, by decide⟩
  have htwo : Delivers shippedConfig nulMessage [.bytes (nulMessage.take 17), .bytes [121]] :=
    ⟨by simp [nulMessage, shippedConfig], by decide, by decide⟩
  have hok : ReadsOk shippedConfig default [.bytes nulMessage] [120] :=
    (readsOk_iff shippedConfig default hone).mpr (by decide +kernel)
  have hno : ¬ ReadsOk shippedConfig default [.bytes (nulMessage.take 17), .bytes [121]] [120] := by
    rw [readsOk_iff shippedConfig default htwo]
    decide +kernel
  exact ⟨hok, hno, fun h => hno ((h default default _ _ hone htwo [120]).1.mp hok)⟩

end MultiplexServer.NetworkReaderService

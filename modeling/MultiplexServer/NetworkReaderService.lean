import Mathlib.Data.List.Basic
import MultiplexServer.Library.EventLoop
import MultiplexServer.Strings

/-! `c_network_reader_service::service_read`: the receive loop that collects one
length-prefixed request. What the operating system and the exit flag answer is
the list of events; everything else is computed as the source computes it.
Lengths and counters stay far below the width of their types (the message size
bound and the retry limit are checked on every iteration), so they are numbers. -/

namespace MultiplexServer.NetworkReaderService
open Strings

inductive NetworkReaderStatus where
  | none
  | ok
  | messageTooLong
  | messageBiggerThanHeaderValue
  | headerInvalid
  | headerMissing
  | networkError
  | networkTooManyReads
  | systemError
  | connectionClosed
  | systemExit
  deriving DecidableEq, Repr

structure ReaderConfig where
  readRetry : Nat
  protocolHeaderSizeLength : Nat
  clientsMaxMessageSize : Nat
  bufferSize : Nat
  readRetry_le : readRetry ≤ 1000
  header_pos : 1 ≤ protocolHeaderSizeLength
  header_le : protocolHeaderSizeLength ≤ 1024
  maxMessageSize_ge : 15 ≤ clientsMaxMessageSize
  maxMessageSize_le : clientsMaxMessageSize ≤ 102400
  bufferSize_ge : 512 ≤ bufferSize
  bufferSize_le : bufferSize ≤ 102400

def ReaderConfig.networkBufferSize (cfg : ReaderConfig) : Nat := cfg.bufferSize + 1

structure Reader (cfg : ReaderConfig) where
  networkBuffer : Bytes
  resultBuffer : Bytes
  size : networkBuffer.length = cfg.networkBufferSize

instance (cfg : ReaderConfig) : Inhabited (Reader cfg) :=
  ⟨⟨List.replicate cfg.networkBufferSize 0, [], List.length_replicate⟩⟩

/-- What one iteration meets: the exit flag already raised, a failing `recv`, or
a `recv` with these bytes at hand (none when the peer has closed). -/
inductive RecvEvent where
  | exit
  | error
  | bytes (available : Bytes)
  deriving DecidableEq, Repr

structure ReadState (cfg : ReaderConfig) where
  service : Reader cfg
  errorLoopCount : Nat
  headerMessageLength : Int
  resultBuffer : Bytes

abbrev ReadReturn (cfg : ReaderConfig) := Except CppException (NetworkReaderStatus × Reader cfg)

def memset (buffer : Bytes) (c : UInt8) : Bytes := buffer.map fun _ => c

def recvInto (buffer data : Bytes) : Bytes := data ++ buffer.drop data.length

def cString (buffer : Bytes) : Bytes := buffer.takeWhile (· ≠ 0)

theorem recvInto_set_length {buffer data : Bytes} (h : data.length ≤ buffer.length) :
    ((recvInto buffer data).set data.length 0).length = buffer.length := by
  simp only [recvInto, List.length_set, List.length_append, List.length_drop]
  omega

variable (cfg : ReaderConfig)

/-- `recv` into the member buffer with the terminator planted after the bytes. -/
def Reader.receive {cfg : ReaderConfig} (service : Reader cfg) (available : Bytes) : Reader cfg where
  networkBuffer :=
    let data := available.take (cfg.networkBufferSize - 1)
    (recvInto service.networkBuffer data).set data.length 0
  resultBuffer := service.resultBuffer
  size := by
    have h := service.size
    rw [recvInto_set_length (by simp only [List.length_take]; omega), h]

def Reader.clear {cfg : ReaderConfig} (service : Reader cfg) : Reader cfg where
  networkBuffer := memset service.networkBuffer 0
  resultBuffer := []
  size := by rw [memset, List.length_map, service.size]

def afterLoop (s : ReadState cfg) : NetworkReaderStatus × Reader cfg :=
  if 0 < s.headerMessageLength ∧ s.resultBuffer.length = s.headerMessageLength then
    (.ok, { s.service with
      resultBuffer := s.service.resultBuffer ++ s.resultBuffer.drop cfg.protocolHeaderSizeLength })
  else if cfg.readRetry ≤ s.errorLoopCount then (.networkTooManyReads, s.service)
  else (.systemError, s.service)

def checkReceived (s : ReadState cfg) : ReadState cfg ⊕ ReadReturn cfg :=
  let n := cfg.protocolHeaderSizeLength
  let tellp := s.resultBuffer.length
  let parse := s.headerMessageLength = 0 ∧ n < tellp
  let header :=
    if parse then extractLeadingNumberLengthN s.resultBuffer n
    else .ok s.headerMessageLength
  match header with
  | .error e => .inr (.error e)
  | .ok h =>
    if parse ∧ h ≤ 0 then .inr (.ok (.headerInvalid, s.service))
    else if cfg.clientsMaxMessageSize < tellp then .inr (.ok (.messageTooLong, s.service))
    else if 0 < h ∧ h < tellp then .inr (.ok (.messageBiggerThanHeaderValue, s.service))
    else if h ≤ 0 ∧ n < tellp then .inr (.ok (.headerMissing, s.service))
    else .inl { s with headerMessageLength := h }

def ReadState.fail {cfg : ReaderConfig} (s : ReadState cfg) : ReadState cfg :=
  { s with errorLoopCount := s.errorLoopCount + 1 }

def ReadState.receive {cfg : ReaderConfig} (s : ReadState cfg) (available : Bytes) :
    ReadState cfg :=
  { s with
    service := s.service.receive available
    resultBuffer := s.resultBuffer ++ cString (s.service.receive available).networkBuffer }

def readBody (s : ReadState cfg) : RecvEvent → ReadState cfg ⊕ ReadReturn cfg
  | .exit => .inr (.ok (.systemExit, s.service))
  | .error => checkReceived cfg s.fail
  | .bytes available =>
    if (available.take (cfg.networkBufferSize - 1)).length = 0 then
      .inr (.ok (.connectionClosed, s.service))
    else checkReceived cfg (s.receive available)

def readLoop : EventLoop (ReadState cfg) RecvEvent (ReadReturn cfg) where
  guard s := if cfg.readRetry ≤ s.errorLoopCount then some (.ok (afterLoop cfg s)) else none
  body := readBody cfg

def readStart (service : Reader cfg) : ReadState cfg := ⟨service.clear, 0, 0, []⟩

/-- The call, as far as these events carry it: `none` while it has not returned. -/
def serviceRead (service : Reader cfg) (setsockopt : Int) (events : List RecvEvent) :
    Option (ReadReturn cfg) :=
  if setsockopt ≠ 0 then some (.ok (.systemError, service.clear))
  else (readLoop cfg).result (readStart cfg service) events

theorem clear_eq (a b : Reader cfg) : a.clear = b.clear := by
  simp only [Reader.clear, memset, List.map_const', a.size, b.size]

theorem serviceRead_service (a b : Reader cfg) (setsockopt : Int) (events : List RecvEvent) :
    serviceRead cfg a setsockopt events = serviceRead cfg b setsockopt events := by
  simp only [serviceRead, readStart, clear_eq cfg a b]

/-! ## The text received so far -/

def chunkText : RecvEvent → Bytes
  | .bytes available => cString (available.take cfg.bufferSize)
  | _ => []

def received (events : List RecvEvent) : Bytes := events.flatMap (chunkText cfg)

def failures (events : List RecvEvent) : Nat := events.count .error

def RecvEvent.Waits (e : RecvEvent) : Prop := e ≠ .exit ∧ e ≠ .bytes []

instance (e : RecvEvent) : Decidable e.Waits := inferInstanceAs (Decidable (_ ∧ _))

theorem RecvEvent.not_waits {e : RecvEvent} (h : ¬ e.Waits) : e = .exit ∨ e = .bytes [] := by
  simp only [Waits, ne_eq] at h
  tauto

def Accepts (text : Bytes) : Prop :=
  text.length ≤ cfg.clientsMaxMessageSize ∧
    (cfg.protocolHeaderSizeLength < text.length →
      HasHeader cfg.protocolHeaderSizeLength text ∧
      cfg.protocolHeaderSizeLength ≤ headerValue cfg.protocolHeaderSizeLength text ∧
      (headerValue cfg.protocolHeaderSizeLength text : Int) ≤ intMax ∧
      text.length ≤ headerValue cfg.protocolHeaderSizeLength text)

def HeaderOverflows (text : Bytes) : Prop :=
  cfg.protocolHeaderSizeLength < text.length ∧
    HasHeader cfg.protocolHeaderSizeLength text ∧
    intMax < headerValue cfg.protocolHeaderSizeLength text

/-- One complete request: the header announces exactly the received length. -/
def Frames (text : Bytes) : Prop :=
  cfg.protocolHeaderSizeLength < text.length ∧
    text.length ≤ cfg.clientsMaxMessageSize ∧
    HasHeader cfg.protocolHeaderSizeLength text ∧
    headerValue cfg.protocolHeaderSizeLength text = text.length

instance (text : Bytes) : Decidable (Accepts cfg text) := inferInstanceAs (Decidable (_ ∧ _))
instance (text : Bytes) : Decidable (HeaderOverflows cfg text) := inferInstanceAs (Decidable (_ ∧ _))
instance (text : Bytes) : Decidable (Frames cfg text) := inferInstanceAs (Decidable (_ ∧ _))

def headerOf (text : Bytes) : Int :=
  if cfg.protocolHeaderSizeLength < text.length then
    headerValue cfg.protocolHeaderSizeLength text
  else 0

@[simp] theorem received_append (xs ys : List RecvEvent) :
    received cfg (xs ++ ys) = received cfg xs ++ received cfg ys := by
  simp [received]

@[simp] theorem received_singleton (e : RecvEvent) : received cfg [e] = chunkText cfg e := by
  simp [received]

@[simp] theorem failures_append (xs ys : List RecvEvent) :
    failures (xs ++ ys) = failures xs + failures ys := by
  simp [failures]

theorem Accepts.of_append {text more : Bytes} (h : Accepts cfg (text ++ more)) :
    Accepts cfg text := by
  obtain ⟨hmax, hhead⟩ := h
  rw [List.length_append] at hmax hhead
  refine ⟨by omega, fun hn => ?_⟩
  have := hhead (by omega)
  rw [HasHeader.append hn.le, headerValue_append hn.le] at this
  exact ⟨this.1, this.2.1, this.2.2.1, by omega⟩

theorem HeaderOverflows.append {text : Bytes} (h : HeaderOverflows cfg text) (more : Bytes) :
    HeaderOverflows cfg (text ++ more) := by
  obtain ⟨hn, hhead, hval⟩ := h
  refine ⟨by rw [List.length_append]; omega, ?_, ?_⟩
  · exact (HasHeader.append hn.le more).mpr hhead
  · rwa [headerValue_append hn.le]

theorem Accepts.not_overflows {text : Bytes} (h : Accepts cfg text) :
    ¬ HeaderOverflows cfg text := by
  rintro ⟨hn, -, hval⟩
  have := (h.2 hn).2.2.1
  omega

theorem Frames.accepts {text : Bytes} (h : Frames cfg text) : Accepts cfg text := by
  obtain ⟨hn, hmax, hhead, hval⟩ := h
  have := cfg.maxMessageSize_le
  refine ⟨hmax, fun _ => ⟨hhead, by omega, ?_, hval.ge⟩⟩
  unfold intMax
  omega

theorem cString_recvInto {buffer data : Bytes} (h : data.length < buffer.length) :
    cString ((recvInto buffer data).set data.length 0) = cString data := by
  obtain ⟨stale, rest, hrest⟩ : ∃ stale rest, buffer.drop data.length = stale :: rest :=
    List.exists_cons_of_ne_nil (by simp; omega)
  have hset : (recvInto buffer data).set data.length 0 = data ++ 0 :: rest := by
    rw [recvInto, hrest, List.set_append_right _ _ le_rfl]
    simp
  have hstop : ∀ ds : Bytes, (ds ++ 0 :: rest).takeWhile (· ≠ 0) = ds.takeWhile (· ≠ 0) := by
    intro ds
    induction ds with
    | nil => simp
    | cons d ds ih => by_cases hd : d = 0 <;> simp [hd] at ih ⊢; exact ih
  rw [hset, cString, cString, hstop]

theorem cString_receive (service : Reader cfg) (available : Bytes) :
    cString (service.receive available).networkBuffer = cString (available.take cfg.bufferSize) := by
  have h := service.size
  simp only [ReaderConfig.networkBufferSize] at h
  simp only [Reader.receive, ReaderConfig.networkBufferSize, Nat.add_sub_cancel]
  exact cString_recvInto (by simp only [List.length_take]; omega)

/-! ## The tests after a `recv` -/

theorem headerOf_pos {text : Bytes} (h : Accepts cfg text)
    (hn : cfg.protocolHeaderSizeLength < text.length) : 0 < headerOf cfg text := by
  have hpos := cfg.header_pos
  have hval := (h.2 hn).2.1
  rw [headerOf, if_pos hn]
  omega

theorem headerOf_short {text : Bytes} (hn : ¬ cfg.protocolHeaderSizeLength < text.length) :
    headerOf cfg text = 0 := if_neg hn

theorem extract_accepted {text : Bytes} (h : Accepts cfg text)
    (hn : cfg.protocolHeaderSizeLength < text.length) :
    extractLeadingNumberLengthN text cfg.protocolHeaderSizeLength = .ok (headerOf cfg text) := by
  obtain ⟨hhead, hlow, hhigh, -⟩ := h.2 hn
  rw [extractLeadingNumberLengthN_eq text cfg.header_pos, if_pos hhead, if_neg (by omega),
    if_neg (by omega), headerOf, if_pos hn]

theorem parsed_header {text more : Bytes} (h : Accepts cfg text) :
    (if headerOf cfg text = 0 ∧ cfg.protocolHeaderSizeLength < (text ++ more).length then
        extractLeadingNumberLengthN (text ++ more) cfg.protocolHeaderSizeLength
      else .ok (headerOf cfg text)) =
      if cfg.protocolHeaderSizeLength < (text ++ more).length then
        extractLeadingNumberLengthN (text ++ more) cfg.protocolHeaderSizeLength
      else .ok 0 := by
  by_cases hn : cfg.protocolHeaderSizeLength < text.length
  · have hpos := headerOf_pos cfg h hn
    have hlong : cfg.protocolHeaderSizeLength < (text ++ more).length := by
      rw [List.length_append]; omega
    have hsame : extractLeadingNumberLengthN (text ++ more) cfg.protocolHeaderSizeLength =
        extractLeadingNumberLengthN text cfg.protocolHeaderSizeLength := by
      rw [extractLeadingNumberLengthN_eq _ cfg.header_pos,
        extractLeadingNumberLengthN_eq _ cfg.header_pos, headerValue_append hn.le]
      simp only [HasHeader.append hn.le more]
    rw [if_neg (by omega), if_pos hlong, hsame, extract_accepted cfg h hn]
  · simp only [headerOf_short cfg hn, true_and]

section Tests

variable {cfg} {s : ReadState cfg} {text more : Bytes} (before : Accepts cfg text)
  (header : s.headerMessageLength = headerOf cfg text) (buffer : s.resultBuffer = text ++ more)

include before header buffer

theorem checkReceived_accepts (after : Accepts cfg (text ++ more)) :
    checkReceived cfg s =
      .inl { s with headerMessageLength := headerOf cfg (text ++ more) } := by
  simp only [checkReceived, header, buffer, parsed_header cfg before]
  by_cases hn : cfg.protocolHeaderSizeLength < (text ++ more).length
  · have hpos := headerOf_pos cfg after hn
    have hmax := after.1
    have hval := (after.2 hn).2.2.2
    have hlen : ((text ++ more).length : Int) ≤ headerOf cfg (text ++ more) := by
      rw [headerOf, if_pos hn]
      exact_mod_cast hval
    simp only [if_pos hn, extract_accepted cfg after hn]
    rw [if_neg (by omega), if_neg (by omega), if_neg (by omega), if_neg (by omega)]
  · have hmax := after.1
    have hzero := headerOf_short cfg hn
    simp only [if_neg hn, hzero]
    rw [if_neg (by omega), if_neg (by omega), if_neg (by omega), if_neg (by omega)]

theorem checkReceived_overflows (after : HeaderOverflows cfg (text ++ more)) :
    checkReceived cfg s = .inr (.error .outOfRange) := by
  obtain ⟨hn, hhead, hval⟩ := after
  simp only [checkReceived, header, buffer, parsed_header cfg before]
  simp only [if_pos hn, extractLeadingNumberLengthN_eq _ cfg.header_pos, if_pos hhead,
    if_pos hval]

theorem checkReceived_refuses (after : ¬ Accepts cfg (text ++ more))
    (fits : ¬ HeaderOverflows cfg (text ++ more)) :
    ∃ status, status ≠ .ok ∧ checkReceived cfg s = .inr (.ok (status, s.service)) := by
  simp only [checkReceived, header, buffer, parsed_header cfg before]
  by_cases hn : cfg.protocolHeaderSizeLength < (text ++ more).length
  · simp only [if_pos hn]
    cases hx : extractLeadingNumberLengthN (text ++ more) cfg.protocolHeaderSizeLength with
    | error e =>
      rw [extractLeadingNumberLengthN_eq _ cfg.header_pos] at hx
      split_ifs at hx with hhead hval
      exact absurd ⟨hn, hhead, hval⟩ fits
    | ok h =>
      simp only [hn, and_true]
      by_cases h1 : headerOf cfg text = 0 ∧ h ≤ 0
      · exact ⟨.headerInvalid, by decide, by rw [if_pos h1]⟩
      by_cases h2 : cfg.clientsMaxMessageSize < (text ++ more).length
      · exact ⟨.messageTooLong, by decide, by rw [if_neg h1, if_pos h2]⟩
      by_cases h3 : 0 < h ∧ h < ((text ++ more).length : Int)
      · exact ⟨.messageBiggerThanHeaderValue, by decide, by
          rw [if_neg h1, if_neg h2, if_pos h3]⟩
      by_cases h4 : h ≤ 0
      · exact ⟨.headerMissing, by decide, by
          rw [if_neg h1, if_neg h2, if_neg h3, if_pos h4]⟩
      refine absurd ⟨by omega, fun _ => ?_⟩ after
      rw [extractLeadingNumberLengthN_eq _ cfg.header_pos] at hx
      split_ifs at hx with hhead hval hlow
      all_goals cases hx
      · omega
      · exact ⟨hhead, by omega, by omega, by omega⟩
      · omega
  · have hlong : cfg.clientsMaxMessageSize < (text ++ more).length := by
      by_contra hshort
      exact after ⟨by omega, fun h => absurd h hn⟩
    refine ⟨.messageTooLong, by decide, ?_⟩
    simp only [if_neg hn, if_pos hlong]
    rw [if_neg (fun h => hn h.1.2)]

end Tests

end MultiplexServer.NetworkReaderService

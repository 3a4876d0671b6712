import MultiplexServer.DatamodelIncrement
import MultiplexServer.NetworkReaderSegments
import MultiplexServer.ServerReplies

/-! The test client: it counts its pings, wraps each in a document, and puts the length
of the whole message in front. The server takes what it sends for a message exactly when
it reads fifteen digits of header. -/

namespace MultiplexServer.Client
open Strings NetworkReaderService

/-- `'%i' % n` -/
def decimal (n : Nat) : List Char := Nat.toDigits 10 n

/-- `'%015i' % n` -/
def zeroPadded (n : Nat) : List Char :=
  List.replicate (15 - (decimal n).length) '0' ++ decimal n

def encode (text : List Char) : Bytes := text.map fun c => c.toNat.toUInt8

def messageJson (messageSeqno : Nat) (messageUtc messageLocal : List Char) : List Char :=
  "\"message\": \x7b \"message_seqno\": \"".toList ++ zeroPadded messageSeqno ++
    "\", \"message_version\": 0.01, \"message_utc\": \"".toList ++ messageUtc ++
    "\", \"message_local\": \"".toList ++ messageLocal ++
    "\", \"message_action\": \"ping\" \x7d".toList

def headerJson (messageSeqno : Nat) (messageUtc messageLocal : List Char) : List Char :=
  "\"header\": \x7b ".toList ++ messageJson messageSeqno messageUtc messageLocal ++ " \x7d".toList

def bodyJson (pingId : Nat) : List Char :=
  "\"body\": \x7b \"ping_id\": ".toList ++ decimal pingId ++ " \x7d".toList

def payloadJson (messageSeqno : Nat) (messageUtc messageLocal : List Char) (pingId : Nat) :
    Bytes :=
  encode ("\x7b ".toList ++ headerJson messageSeqno messageUtc messageLocal ++ ", ".toList ++
    bodyJson pingId ++ " \x7d".toList)

/-- The blank belongs to the header for the client and to the payload for the server. -/
def payloadHeader (payload : Bytes) : Bytes := encode (zeroPadded (payload.length + 16)) ++ [32]

def sendBuffer (payload : Bytes) : Bytes := payloadHeader payload ++ payload

/-! ## Digits -/

def IsNumeral (text : List Char) : Prop := ∀ c ∈ text, c.isDigit = true

theorem IsNumeral.range {text : List Char} (h : IsNumeral text) {c : Char} (hc : c ∈ text) :
    48 ≤ c.toNat ∧ c.toNat ≤ 57 := by
  have hdigit := h c hc
  simp only [Char.isDigit, Bool.and_eq_true, decide_eq_true_eq, UInt32.le_iff_toNat_le] at hdigit
  exact hdigit

theorem toNat_toUInt8 {n : Nat} (h : n ≤ 57) : n.toUInt8.toNat = n := by
  rw [Nat.toUInt8_eq, UInt8.toNat_ofNat']
  omega

theorem isDigit_encode {text : List Char} (h : IsNumeral text) {b : UInt8}
    (hb : b ∈ encode text) : isDigit b = true := by
  obtain ⟨c, hc, rfl⟩ := List.mem_map.mp hb
  obtain ⟨hlow, hhigh⟩ := h.range hc
  simp only [isDigit, Bool.and_eq_true, decide_eq_true_eq, UInt8.le_iff_toNat_le,
    toNat_toUInt8 hhigh]
  exact ⟨hlow, hhigh⟩

theorem decimalValue_encode {text : List Char} (h : IsNumeral text) :
    decimalValue (encode text) = Nat.ofDigitChars 10 text 0 := by
  rw [decimalValue, encode, List.foldl_map, Nat.ofDigitChars_eq_foldl]
  refine List.foldl_ext _ _ _ fun value c hc => ?_
  rw [toNat_toUInt8 (h.range hc).2]
  rfl

theorem isNumeral_decimal (n : Nat) : IsNumeral (decimal n) :=
  fun _ hc => Nat.isDigit_of_mem_toDigits (by decide) (by decide) hc

theorem isNumeral_zeroPadded (n : Nat) : IsNumeral (zeroPadded n) := by
  intro c hc
  rcases List.mem_append.mp hc with hzero | hdigit
  · rw [(List.mem_replicate.mp hzero).2]
    rfl
  · exact isNumeral_decimal n c hdigit

theorem ofDigitChars_zeroPadded (n : Nat) : Nat.ofDigitChars 10 (zeroPadded n) 0 = n := by
  rw [zeroPadded, Nat.ofDigitChars_append, Nat.ofDigitChars_replicate_zero, Nat.mul_zero]
  exact Nat.ofDigitChars_ten_toDigits

theorem length_zeroPadded {n : Nat} (h : n < 10 ^ 15) : (zeroPadded n).length = 15 := by
  have hlength : (decimal n).length ≤ 15 :=
    (Nat.length_toDigits_le_iff (by decide) (by decide)).mpr h
  rw [zeroPadded, List.length_append, List.length_replicate]
  omega

theorem ofDigitChars_take {text : List Char} {n : Nat} (h : n < text.length) :
    10 * Nat.ofDigitChars 10 (text.take n) 0 ≤ Nat.ofDigitChars 10 text 0 := by
  have hsplit : Nat.ofDigitChars 10 text 0 =
      10 ^ (text.drop n).length * Nat.ofDigitChars 10 (text.take n) 0 +
        Nat.ofDigitChars 10 (text.drop n) 0 := by
    rw [← Nat.ofDigitChars_eq_ofDigitChars_zero, ← Nat.ofDigitChars_append, List.take_append_drop]
  have hpower : 10 ^ 1 ≤ 10 ^ (text.drop n).length := by
    refine Nat.pow_le_pow_right (by decide) ?_
    rw [List.length_drop]
    omega
  have hle := Nat.mul_le_mul_right (Nat.ofDigitChars 10 (text.take n) 0) hpower
  omega

theorem encode_append (text more : List Char) :
    encode (text ++ more) = encode text ++ encode more :=
  List.map_append

theorem zero_not_mem_encode {text : List Char} (h : IsNumeral text) : 0 ∉ encode text :=
  fun hmem => absurd (isDigit_encode h hmem) (by decide)

theorem zero_not_mem_append {text more : List Char} (h : 0 ∉ encode text)
    (h' : 0 ∉ encode more) : 0 ∉ encode (text ++ more) := by
  rw [encode_append, List.mem_append, not_or]
  exact ⟨h, h'⟩

theorem zero_not_mem_payloadJson {messageUtc messageLocal : List Char}
    (hutc : 0 ∉ encode messageUtc) (hlocal : 0 ∉ encode messageLocal)
    (messageSeqno pingId : Nat) :
    0 ∉ payloadJson messageSeqno messageUtc messageLocal pingId := by
  have hseqno := zero_not_mem_encode (isNumeral_zeroPadded messageSeqno)
  have hping := zero_not_mem_encode (isNumeral_decimal pingId)
  unfold payloadJson headerJson messageJson bodyJson
  repeat' first | assumption | apply zero_not_mem_append
  all_goals decide +kernel

/-! ## The frame -/

variable (cfg : ReaderConfig)

theorem sendBuffer_eq (payload : Bytes) :
    sendBuffer payload = encode (zeroPadded (payload.length + 16)) ++ 32 :: payload := by
  simp [sendBuffer, payloadHeader]

theorem length_sendBuffer {payload : Bytes} (h : payload.length + 16 < 10 ^ 15) :
    (sendBuffer payload).length = payload.length + 16 := by
  rw [sendBuffer_eq, List.length_append, encode, List.length_map, length_zeroPadded h,
    List.length_cons]
  omega

theorem le_length_sendBuffer (payload : Bytes) :
    payload.length + 16 ≤ (sendBuffer payload).length := by
  rw [sendBuffer_eq, List.length_append, encode, List.length_map, zeroPadded, List.length_append,
    List.length_replicate, List.length_cons]
  omega

theorem headerValue_sendBuffer {payload : Bytes} {n : Nat} (h : payload.length + 16 < 10 ^ 15)
    (hn : n ≤ 15) : HasHeader n (sendBuffer payload) ∧ headerValue n (sendBuffer payload) =
      Nat.ofDigitChars 10 ((zeroPadded (payload.length + 16)).take n) 0 := by
  have hlength := length_zeroPadded h
  have htake : (sendBuffer payload).take n =
      encode ((zeroPadded (payload.length + 16)).take n) := by
    rw [sendBuffer_eq, List.take_append_of_le_length (by simp [encode]; omega), encode,
      ← List.map_take]
    rfl
  have hnumeral : IsNumeral ((zeroPadded (payload.length + 16)).take n) := fun c hc =>
    isNumeral_zeroPadded _ c (List.mem_of_mem_take hc)
  refine ⟨⟨?_, fun b hb => ?_⟩, ?_⟩
  · rw [length_sendBuffer h]
    omega
  · rw [htake] at hb
    exact isDigit_encode hnumeral hb
  · rw [headerValue, htake, decimalValue_encode hnumeral]

theorem not_hasHeader_sendBuffer {payload : Bytes} {n : Nat} (h : payload.length + 16 < 10 ^ 15)
    (hn : 15 < n) : ¬ HasHeader n (sendBuffer payload) := by
  rintro ⟨-, hdigits⟩
  have hmem : (32 : UInt8) ∈ (sendBuffer payload).take n := by
    rw [sendBuffer_eq, List.take_append]
    refine List.mem_append_right _ ?_
    obtain ⟨k, hk⟩ : ∃ k, n - (encode (zeroPadded (payload.length + 16))).length = k + 1 := by
      refine Nat.exists_eq_succ_of_ne_zero ?_
      rw [encode, List.length_map, length_zeroPadded h]
      omega
    rw [hk, List.take_succ_cons]
    exact List.mem_cons_self
  exact absurd (hdigits 32 hmem) (by decide)

theorem frames_sendBuffer_iff (payload : Bytes) :
    Frames cfg (sendBuffer payload) ↔
      cfg.protocolHeaderSizeLength = 15 ∧ payload.length + 16 ≤ cfg.clientsMaxMessageSize := by
  have hlimit := cfg.maxMessageSize_le
  have hlong := le_length_sendBuffer payload
  constructor
  · rintro ⟨-, hmax, hheader, hvalue⟩
    have hsmall : payload.length + 16 < 10 ^ 15 := by omega
    rw [length_sendBuffer hsmall] at hvalue hmax
    refine ⟨?_, hmax⟩
    rcases Nat.lt_trichotomy cfg.protocolHeaderSizeLength 15 with hless | hsame | hmore
    · have hdigits := ofDigitChars_take (length_zeroPadded hsmall ▸ hless)
      rw [(headerValue_sendBuffer hsmall hless.le).2] at hvalue
      rw [ofDigitChars_zeroPadded, hvalue] at hdigits
      omega
    · exact hsame
    · exact absurd hheader (not_hasHeader_sendBuffer hsmall hmore)
  · rintro ⟨hheader, hmax⟩
    have hsmall : payload.length + 16 < 10 ^ 15 := by omega
    have hread := headerValue_sendBuffer hsmall (Nat.le_refl 15)
    rw [List.take_of_length_le (length_zeroPadded hsmall).le, ofDigitChars_zeroPadded] at hread
    rw [Frames, length_sendBuffer hsmall, hheader]
    exact ⟨by omega, hmax, hread.1, hread.2⟩

theorem readsOk_sendBuffer_iff (service : Reader cfg) {payload : Bytes} (hnul : 0 ∉ payload)
    {pre : List RecvEvent} (h : Delivers cfg (sendBuffer payload) pre) (result : Bytes) :
    ReadsOk cfg service pre result ↔
      (cfg.protocolHeaderSizeLength = 15 ∧ payload.length + 16 ≤ cfg.clientsMaxMessageSize) ∧
        result = (sendBuffer payload).drop cfg.protocolHeaderSizeLength := by
  have hnone : 0 ∉ sendBuffer payload := by
    rw [sendBuffer_eq, List.mem_append, List.mem_cons]
    rintro (hdigit | hblank | hpayload)
    · exact absurd (isDigit_encode (isNumeral_zeroPadded _) hdigit) (by decide)
    · exact absurd hblank (by decide)
    · exact hnul hpayload
  rw [readsOk_iff cfg service h, (h.kept cfg).eq_of_not_mem cfg hnone, frames_sendBuffer_iff]

theorem drop_sendBuffer {payload : Bytes} (hheader : cfg.protocolHeaderSizeLength = 15)
    (hmax : payload.length + 16 ≤ cfg.clientsMaxMessageSize) :
    (sendBuffer payload).drop cfg.protocolHeaderSizeLength = 32 :: payload := by
  have hlimit := cfg.maxMessageSize_le
  have hlength : (encode (zeroPadded (payload.length + 16))).length = 15 := by
    rw [encode, List.length_map, length_zeroPadded (by omega)]
  rw [sendBuffer_eq, hheader, ← hlength, List.drop_left]

/-- Whatever the segments that the payload arrives in, the server reads it exactly when
the two agree on the frame, and then with the blank of the header in front. -/
theorem client_read_iff (service : Reader cfg) {payload : Bytes} (hnul : 0 ∉ payload)
    {pre : List RecvEvent} (h : Delivers cfg (sendBuffer payload) pre) (result : Bytes) :
    ReadsOk cfg service pre result ↔
      (cfg.protocolHeaderSizeLength = 15 ∧ payload.length + 16 ≤ cfg.clientsMaxMessageSize) ∧
        result = 32 :: payload := by
  rw [readsOk_sendBuffer_iff cfg service hnul h]
  refine and_congr_right fun ⟨hheader, hmax⟩ => ?_
  rw [drop_sendBuffer cfg hheader hmax]

def messageTime : List Char := "2024/01/01 00:00:00".toList

theorem zero_not_mem_messageTime : 0 ∉ encode messageTime := by decide +kernel

def firstPing : Bytes := payloadJson 1 messageTime messageTime 1

theorem zero_not_mem_firstPing : 0 ∉ firstPing :=
  zero_not_mem_payloadJson zero_not_mem_messageTime zero_not_mem_messageTime 1 1

def firstSegments : List RecvEvent :=
  [.bytes ((sendBuffer firstPing).take 10), .error, .bytes ((sendBuffer firstPing).drop 10)]

theorem delivers_firstSegments : Delivers shippedConfig (sendBuffer firstPing) firstSegments where
  chunks := by
    intro e he
    simp only [firstSegments, List.mem_cons, List.not_mem_nil, or_false] at he
    rcases he with rfl | rfl | rfl
    · exact .inr ⟨_, rfl, by decide +kernel, by decide +kernel⟩
    · exact .inl rfl
    · exact .inr ⟨_, rfl, by decide +kernel, by decide +kernel⟩
  bytes := by
    simp only [firstSegments, List.flatMap_cons, List.flatMap_nil, bytesOf, List.nil_append,
      List.append_nil, List.take_append_drop]
  retries := by decide

theorem client_read_first : ReadsOk shippedConfig default firstSegments (32 :: firstPing) :=
  (client_read_iff shippedConfig default zero_not_mem_firstPing delivers_firstSegments _).mpr
    ⟨⟨rfl, by decide +kernel⟩, rfl⟩

end MultiplexServer.Client

namespace MultiplexServer
open Strings Json NetworkReaderService DatamodelService ServerPipelineElement

theorem Life.of_read {cfg : ServerConfig} {fd fd' : Int} {log : List Visit}
    {e : ServerPipelineElement} (h : Life cfg fd log e) {setsockopt : Int}
    {events : List RecvEvent} {status : NetworkReaderStatus} {payload : Bytes}
    (hmem : .read fd' setsockopt events status payload ∈ log) :
    fd' = fd ∧ ∃ reader, serviceRead cfg.reader default setsockopt events =
      some (.ok (status, reader)) ∧ payload = reader.resultBuffer := by
  induction h with
  | created => cases hmem
  | read before here done ih =>
    rcases List.mem_append.mp hmem with hbefore | hlast
    · exact ih hbefore
    · cases List.mem_singleton.mp hlast
      exact ⟨rfl, _, done, rfl⟩
  | compute before here done ih => exact ih (by simpa using hmem)
  | write before here sent ih => exact ih (by simpa using hmem)
  | complete before here ih => exact ih (by simpa using hmem)

theorem mem_sends {log : List Visit} {sent : Bytes} :
    sent ∈ sends log ↔ ∃ fd setsockopt response events status,
      .write fd setsockopt response events status sent ∈ log := by
  rw [sends, List.mem_filterMap]
  constructor
  · rintro ⟨visit, hvisit, hsent⟩
    cases visit with
    | write fd setsockopt response events status accepted =>
      cases hsent
      exact ⟨fd, setsockopt, response, events, status, hvisit⟩
    | read | compute | complete => cases hsent
  · rintro ⟨fd, setsockopt, response, events, status, hmem⟩
    exact ⟨_, hmem, rfl⟩

theorem Life.Settled.sends_eq {cfg : ServerConfig} {fd fd' setsockopt : Int}
    {events : List RecvEvent} {payload result : Bytes} {log : List Visit}
    {e : ServerPipelineElement} (h : Settled cfg fd log e)
    (hmem : .read fd' setsockopt events .ok payload ∈ log)
    (hdone : serviceDatamodel cfg.lib [] payload = (.ok, result)) :
    ∃ code sendEvents status accepted, sends log = [accepted] ∧
      .write fd code result sendEvents status accepted ∈ log ∧
      (e.isCloseConnectionRequired = false ↔ status = .ok) := by
  cases h with
  | unread _ _ _ _ failed =>
    simp only [List.mem_singleton, Visit.read.injEq] at hmem
    exact absurd hmem.2.2.2.1.symm failed
  | uncomputed read done failed =>
    obtain rfl := read.payload_eq (by simp [Visit.stage]) hmem
    rw [done] at hdone
    exact absurd (congrArg Prod.fst hdone) failed
  | unwritten read done sent failed =>
    obtain rfl := read.payload_eq (by simp [Visit.stage]) hmem
    obtain ⟨_, _, _, rfl, -⟩ := read
    rw [done] at hdone
    obtain rfl := congrArg Prod.snd hdone
    exact ⟨_, _, _, _, rfl, .tail _ (.tail _ (.head _)),
      iff_of_false (by simp [abandon, markAsResponseFailed]) failed⟩
  | written read done sent =>
    obtain rfl := read.payload_eq (by simp [Visit.stage]) hmem
    obtain ⟨_, _, _, rfl, -⟩ := read
    rw [done] at hdone
    obtain rfl := congrArg Prod.snd hdone
    exact ⟨_, _, _, _, rfl, .tail _ (.tail _ (.head _)), iff_of_true rfl rfl⟩

theorem DatamodelService.serviceDatamodel_ping (lib : JsonLibrary) {request : Bytes}
    {members body : Members} {node : Json} (h : PingWith lib request members body node)
    {value : Int} (hvalue : numberValue node = some (value : Rat)) (hlow : intMin ≤ value)
    (hhigh : value < intMax) :
    ∃ j, Increments members body node j ∧
      serviceDatamodel lib [] request = (.ok, lib.dump j) := by
  have hbounce := bounce_ping lib h (getInt_eq lib hvalue hlow hhigh)
  obtain ⟨body', hassign, hbody⟩ := replaces_assign h.hasPingId
    (.integer (Int64.ofInt (fitInt lib (value + 1))))
  obtain ⟨members', hassign', hmembers⟩ := replaces_assign h.hasBody (.object body')
  rw [hassign, hassign'] at hbounce
  refine ⟨.object members', ⟨members', body', _, value, rfl, hmembers, hbody, hvalue,
    numberValue_next lib hlow hhigh⟩, ?_⟩
  simp [serviceDatamodel, hbounce, clear]

namespace Client

variable {cfg : ServerConfig} {s : Server cfg} {r : Ref}

theorem computed_of_ping {messageSeqno pingId : Nat}
    {messageUtc messageLocal : List Char} (hutc : 0 ∉ encode messageUtc)
    (hlocal : 0 ∉ encode messageLocal) {payload : Bytes}
    (hpayload : payload = payloadJson messageSeqno messageUtc messageLocal pingId)
    (hheader : cfg.reader.protocolHeaderSizeLength = 15)
    (hsize : payload.length + 16 ≤ cfg.reader.clientsMaxMessageSize) {members body : Members}
    {number : UInt64} (hping : PingWith cfg.lib (32 :: payload) members body (.unsigned number))
    (hnumber : number.toNat = pingId) (hhigh : pingId < intMax) {pre : List RecvEvent}
    (hpre : Delivers cfg.reader (sendBuffer payload) pre) {status : NetworkReaderStatus}
    {reader : Reader cfg.reader}
    (hdone : serviceRead cfg.reader default 0
      (pre ++ List.replicate cfg.reader.readRetry .error) = some (.ok (status, reader))) :
    status = .ok ∧ reader.resultBuffer = 32 :: payload ∧
      ∃ j, Increments members body (.unsigned number) j ∧
        serviceDatamodel cfg.lib [] (32 :: payload) = (.ok, cfg.lib.dump j) := by
  have hnul : 0 ∉ payload := hpayload ▸ zero_not_mem_payloadJson hutc hlocal messageSeqno pingId
  obtain ⟨out, hout, hresult⟩ :=
    (readsOk_sendBuffer_iff cfg.reader default hnul hpre (32 :: payload)).mpr
      ⟨⟨hheader, hsize⟩, (drop_sendBuffer cfg.reader hheader hsize).symm⟩
  rw [hout, Option.some.injEq, Except.ok.injEq, Prod.mk.injEq] at hdone
  obtain ⟨rfl, rfl⟩ := hdone
  have hvalue : numberValue (.unsigned number) = some (((pingId : Int) : Rat)) := by
    rw [numberValue, hnumber]
    rfl
  have hlow : intMin ≤ (pingId : Int) := by
    unfold intMin
    omega
  exact ⟨rfl, hresult, serviceDatamodel_ping cfg.lib hping hvalue hlow hhigh⟩

/-- The ping of the client, in whatever segments it arrives, is answered with the number
that follows: at no time has the client been sent anything but the beginning of that
reply, and a client that is kept has been sent the whole of it, once. -/
theorem client_answered (h : (Server.machine cfg).ReachableUnder Server.SendsInTime s)
    {messageSeqno pingId : Nat} {messageUtc messageLocal : List Char}
    (hutc : 0 ∉ encode messageUtc) (hlocal : 0 ∉ encode messageLocal) {payload : Bytes}
    (hpayload : payload = payloadJson messageSeqno messageUtc messageLocal pingId)
    (hheader : cfg.reader.protocolHeaderSizeLength = 15)
    (hsize : payload.length + 16 ≤ cfg.reader.clientsMaxMessageSize) {members body : Members}
    {number : UInt64} (hping : PingWith cfg.lib (32 :: payload) members body (.unsigned number))
    (hnumber : number.toNat = pingId) (hhigh : pingId < intMax) {pre : List RecvEvent}
    (hpre : Delivers cfg.reader (sendBuffer payload) pre) {fd : Int}
    {status : NetworkReaderStatus} {text : Bytes}
    (hread : .read fd 0 (pre ++ List.replicate cfg.reader.readRetry .error) status text ∈
      s.log r) :
    ∃ j, Increments members body (.unsigned number) j ∧
      (∀ sent ∈ sends (s.log r), sent <+: cfg.lib.dump j) ∧
      ∀ taken connection isOpen, .complete taken connection isOpen ∈ s.log r →
        ∃ sent, sends (s.log r) = [sent] ∧ (isOpen = true ↔ sent = cfg.lib.dump j) := by
  have hinv := Server.inv_of_reachable h.reachable
  have hlife := hinv.life_of_mem hread
  obtain ⟨-, reader, hdone, htext⟩ := hlife.of_read hread
  obtain ⟨rfl, hresult, j, hincrements, hcomputed⟩ := computed_of_ping hutc hlocal hpayload hheader
    hsize hping hnumber hhigh hpre hdone
  rw [htext, hresult] at hread
  refine ⟨j, hincrements, fun sent hsent => ?_, fun taken connection isOpen hmem => ?_⟩
  · obtain ⟨fd', code, response, events, status', hmem⟩ := mem_sends.mp hsent
    obtain ⟨xs, ys, hanswers⟩ := Server.answers_of_write h.reachable hmem
    have hsame := hanswers.only _ hread rfl
    simp only [Visit.read.injEq, true_and] at hsame
    have hcomputed' := hanswers.computed []
    rw [← hsame.2.2, hcomputed] at hcomputed'
    obtain rfl := congrArg Prod.snd hcomputed'
    exact (Server.sent_of_write h hmem).1
  · obtain ⟨log, hsettled, hlog⟩ := hlife.of_complete hmem
    have hbefore : .read fd 0 (pre ++ List.replicate cfg.reader.readRetry .error) .ok
        (32 :: payload) ∈ log := by
      rw [hlog] at hread
      simpa using hread
    obtain ⟨code, events, status, accepted, hsends, hwrite, hkept⟩ :=
      hsettled.sends_eq hbefore hcomputed
    have hsent := Server.sent_of_write h (hlog ▸ List.mem_append_left _ hwrite)
    refine ⟨accepted, ?_, ?_⟩
    · rw [hlog, sends, List.filterMap_append, ← sends, hsends]
      rfl
    · have houtcome := hinv.outcome r taken connection isOpen hmem
      rw [← hsent.2, ← hkept]
      cases hclose : taken.isCloseConnectionRequired <;>
        simp_all [Server.Outcome]

def pingedText (pingId : Int) : Bytes :=
  Server.ascii "\x7b\"body\":\x7b\"ping_id\":" ++ Server.ascii (toString pingId) ++
    Server.ascii "\x7d,\"header\":\x7b\"message\":\x7b\"message_action\":\"ping\"," ++
    Server.ascii "\"message_local\":\"2024/01/01 00:00:00\"," ++
    Server.ascii "\"message_seqno\":\"000000000000001\"," ++
    Server.ascii "\"message_utc\":\"2024/01/01 00:00:00\",\"message_version\":0.01\x7d\x7d\x7d"

def firstHeader : Json :=
  .object [("message", .object [("message_action", .string "ping"),
    ("message_local", .string "2024/01/01 00:00:00"),
    ("message_seqno", .string "000000000000001"),
    ("message_utc", .string "2024/01/01 00:00:00"), ("message_version", .float (1 / 100))])]

def clientLibrary : JsonLibrary where
  parse request :=
    if request = 32 :: firstPing then
      some (.object [("body", .object [("ping_id", .unsigned 1)]), ("header", firstHeader)])
    else none
  dump
    | .object [(_, .object [(_, .integer pingId)]), _] => pingedText pingId.toInt
    | _ => Server.ascii "\x7b\"body\":\"invalid request\"\x7d"
  outOfRange _ := 0
  dump_ne_nil j := by split <;> exact nofun

def pinged : ServerConfig := { Server.shipped with lib := clientLibrary }

def conversation : List Server.Iteration :=
  Server.connect ++ [.reader 1 true 0 (firstSegments ++ List.replicate 2 .error),
    .datamodel 2 true, .writer 3 true 0 [.room 1000], Server.closing]

theorem pingWith_firstPing : PingWith clientLibrary (32 :: firstPing)
    [("body", .object [("ping_id", .unsigned 1)]), ("header", firstHeader)]
    [("ping_id", .unsigned 1)] (.unsigned 1) where
  parses := by simp only [clientLibrary, if_true]
  hasBody := rfl
  hasPingId := rfl
  hasNumber := rfl

theorem client_answered_first :
    ∃ s, (Server.machine pinged).runUnder Server.SendsInTime conversation (Server.start pinged) =
        some s ∧
      ∃ j, Increments [("body", .object [("ping_id", .unsigned 1)]), ("header", firstHeader)]
        [("ping_id", .unsigned 1)] (.unsigned 1) j ∧ sends (s.log 0) = [clientLibrary.dump j] := by
  have hrun : ((Server.machine pinged).runUnder Server.SendsInTime conversation
      (Server.start pinged)).map (fun s =>
        (decide (.read 4 0 (firstSegments ++ List.replicate 2 .error) .ok (32 :: firstPing) ∈
          s.log 0), (s.log 0).getLast?)) =
      some (true, some (.complete (((new 4).read (32 :: firstPing)).compute (pingedText 2)).write
        (some ⟨4, false⟩) true)) := by
    decide +kernel
  obtain ⟨s, hs, hstate⟩ := Option.map_eq_some_iff.mp hrun
  obtain ⟨hread, hlast⟩ := Prod.mk.inj hstate
  have hpayload : firstPing = payloadJson 1 messageTime messageTime 1 := rfl
  have hsize : firstPing.length + 16 ≤ pinged.reader.clientsMaxMessageSize := by decide +kernel
  obtain ⟨j, hincrements, -, hsent⟩ := client_answered (Machine.reachableUnder_of_run hs)
    zero_not_mem_messageTime zero_not_mem_messageTime hpayload rfl hsize pingWith_firstPing rfl
    (by decide) delivers_firstSegments (of_decide_eq_true hread)
  obtain ⟨sent, hsends, hwhole⟩ := hsent _ _ _ (List.mem_of_getLast? hlast)
  exact ⟨s, hs, j, hincrements, hsends.trans (congrArg List.singleton (hwhole.mp rfl))⟩

end Client

end MultiplexServer

import Mathlib.Algebra.GroupWithZero.Nat
import Mathlib.Data.List.TakeWhile
import MultiplexServer.Library.EventLoop
import MultiplexServer.Strings

/-! `c_network_writer_service::service_write`: the send loop that hands one
response to the operating system. The loop mixes `int64_t`, `size_t` and
`ssize_t`, so its numbers are integers and every conversion is written out. -/

namespace MultiplexServer.NetworkWriterService
open Strings

inductive NetworkWriterStatus where
  | none
  | ok
  | networkError
  | systemError
  | systemExit
  deriving DecidableEq, Repr

structure WriterConfig where
  writeRetry : Nat
  bufferSize : Nat
  writeRetry_le : (writeRetry : Int) ≤ intMax
  bufferSize_ge : 512 ≤ bufferSize
  bufferSize_le : bufferSize ≤ 102400

def WriterConfig.networkBufferSize (cfg : WriterConfig) : Int := cfg.bufferSize + 1

def toInt64 (x : Int) : Int :=
  (x + 9223372036854775808) % 18446744073709551616 - 9223372036854775808

def toSizeT (x : Int) : Int := x % 18446744073709551616

/-- What one iteration meets: the exit flag already raised, a `send` that answers
`-1`, or one that takes as much of the bytes offered as it has capacity for. -/
inductive SendEvent where
  | exit
  | error
  | room (capacity : Nat)
  deriving DecidableEq, Repr

/-- The counters of the loop and, for reference, the bytes accepted so far. -/
structure SendState where
  errorLoopCount : Nat
  sentMessageLength : Int
  accepted : Bytes
  deriving DecidableEq, Repr

variable (cfg : WriterConfig) (response : Bytes)

def offered (s : SendState) : Int :=
  toSizeT (min (cfg.networkBufferSize - 1) (toInt64 response.length - s.sentMessageLength))

def sendResult (s : SendState) : SendEvent → Int
  | .room capacity => min capacity (offered cfg response s)
  | _ => -1

def sendBody (s : SendState) (e : SendEvent) : SendState ⊕ (NetworkWriterStatus × Bytes) :=
  if e = .exit then .inr (.systemExit, s.accepted)
  else
    let sent := sendResult cfg response s e
    let accepted := s.accepted ++
      (response.drop s.sentMessageLength.toNat).take sent.toNat
    let count := toSizeT sent
    if count ≤ 0 then .inl { s with errorLoopCount := s.errorLoopCount + 1 }
    else
      let sentMessageLength := toInt64 (toSizeT s.sentMessageLength + count)
      if toSizeT sentMessageLength ≥ response.length then .inr (.ok, accepted)
      else .inl { s with sentMessageLength, accepted }

def sendLoop : EventLoop SendState SendEvent (NetworkWriterStatus × Bytes) where
  guard s := if cfg.writeRetry ≤ s.errorLoopCount then some (.networkError, s.accepted) else none
  body := sendBody cfg response

def sendStart : SendState := ⟨0, 0, []⟩

def serviceWrite (setsockopt : Int) (events : List SendEvent) :
    Option (NetworkWriterStatus × Bytes) :=
  if setsockopt ≠ 0 then some (.systemError, [])
  else (sendLoop cfg response).result sendStart events

/-! ## What the results add up to -/

def zeros (events : List SendEvent) : Nat := events.count (.room 0)

def room : SendEvent → Nat
  | .room capacity => min capacity cfg.bufferSize
  | _ => 0

def total (events : List SendEvent) : Nat := (events.map (room cfg)).sum

def beforeError (events : List SendEvent) : List SendEvent := events.takeWhile (· ≠ .error)

/-- The first failing `send` is out of reach: by then the exit flag has been
raised, the empty results have used up the retries, or the response is out. -/
def FirstErrorLate (events : List SendEvent) : Prop :=
  .error ∈ events → .exit ∈ beforeError events ∨
    cfg.writeRetry ≤ zeros (beforeError events) ∨ response.length ≤ total cfg (beforeError events)

instance (events : List SendEvent) : Decidable (FirstErrorLate cfg response events) :=
  inferInstanceAs (Decidable (_ → _))

@[simp] theorem zeros_append (xs ys : List SendEvent) : zeros (xs ++ ys) = zeros xs + zeros ys := by
  simp [zeros]

@[simp] theorem total_append (xs ys : List SendEvent) :
    total cfg (xs ++ ys) = total cfg xs + total cfg ys := by
  simp [total]

theorem zeros_room (capacity : Nat) :
    zeros [.room capacity] = if capacity = 0 then 1 else 0 := by
  by_cases h : capacity = 0 <;> simp [zeros, h]

theorem total_room (capacity : Nat) : total cfg [.room capacity] = min capacity cfg.bufferSize := by
  simp [total, room]

theorem beforeError_append {xs : List SendEvent} (h : .error ∉ xs) (ys : List SendEvent) :
    beforeError (xs ++ ys) = xs ++ beforeError ys := by
  apply List.takeWhile_append_of_pos
  intro e he
  have hne : e ≠ .error := fun heq => h (heq ▸ he)
  simpa using hne

theorem beforeError_append_error {xs : List SendEvent} (h : .error ∉ xs) (ys : List SendEvent) :
    beforeError (xs ++ .error :: ys) = xs := by
  rw [beforeError_append h]
  simp [beforeError]

theorem eq_beforeError_append {events : List SendEvent} (h : .error ∈ events) :
    ∃ ys, events = beforeError events ++ .error :: ys ∧ .error ∉ beforeError events := by
  induction events with
  | nil => cases h
  | cons e es ih =>
    by_cases he : e = .error
    · subst he
      exact ⟨es, by simp [beforeError], by simp [beforeError]⟩
    · obtain ⟨ys, hsplit, hno⟩ := ih (List.mem_of_ne_of_mem (Ne.symm he) h)
      have hcons : beforeError (e :: es) = e :: beforeError es := by simp [beforeError, he]
      refine ⟨ys, ?_, ?_⟩
      · rw [hcons, List.cons_append, ← hsplit]
      · rw [hcons]
        simp [hno, Ne.symm he]

variable {cfg response} in
theorem FirstErrorLate.of_append {xs ys : List SendEvent}
    (h : FirstErrorLate cfg response (xs ++ ys)) : FirstErrorLate cfg response xs := by
  intro hmem
  obtain ⟨zs, hsplit, hno⟩ := eq_beforeError_append hmem
  have hsame : beforeError (xs ++ ys) = beforeError xs := by
    rw [hsplit, List.append_assoc, beforeError_append_error hno, List.cons_append,
      beforeError_append_error hno]
  have := h (List.mem_append_left ys hmem)
  rwa [hsame] at this

theorem firstErrorLate_error {xs : List SendEvent} (h : .error ∉ xs) (ys : List SendEvent) :
    FirstErrorLate cfg response (xs ++ .error :: ys) ↔
      .exit ∈ xs ∨ cfg.writeRetry ≤ zeros xs ∨ response.length ≤ total cfg xs := by
  simp [FirstErrorLate, beforeError_append_error h]

end MultiplexServer.NetworkWriterService

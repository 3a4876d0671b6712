import Mathlib.Data.List.TakeWhile
import Mathlib.Tactic.Common

/-! Byte strings and `c_strings`. A `std::string` is its list of bytes, an `int`
is an `Int` within `intMin .. intMax`, and a C++ exception is the `error` of an
`Except`. -/

namespace MultiplexServer.Strings

abbrev Bytes := List UInt8

inductive CppException where
  | invalidArgument
  | outOfRange
  deriving DecidableEq, Repr

def intMin : Int := -2147483648
def intMax : Int := 2147483647

/-- `c >= '0' && c <= '9'` on a signed or unsigned `char`: the bytes from 128 on
are negative as signed values and above `'9'` as unsigned ones. -/
def isDigit (c : UInt8) : Bool := 48 ≤ c && c ≤ 57

def isSpace (c : UInt8) : Bool := c == 32 || (9 ≤ c && c ≤ 13)

def decimalValue (s : Bytes) : Nat :=
  s.foldl (fun v c => 10 * v + (c.toNat - 48)) 0

/-- `std::stoi`, base ten: blanks, an optional sign, then the longest run of
digits. The conversion is checked against the range of `int`. -/
def stoi (s : Bytes) : Except CppException Int :=
  let rest := s.dropWhile isSpace
  let negative := rest.head? = some 45
  let digits := (if negative ∨ rest.head? = some 43 then rest.tail else rest).takeWhile isDigit
  if digits = [] then .error .invalidArgument
  else
    let v : Int := if negative then -(decimalValue digits) else decimalValue digits
    if v < intMin ∨ intMax < v then .error .outOfRange else .ok v

def extractLeadingNumberLengthN (buffer : Bytes) (n : Nat) : Except CppException Int :=
  if buffer.length < n then .ok (-1)
  else
    let iter := ((buffer.take n).takeWhile isDigit).length
    if iter ≠ n then .ok (-1)
    else
      match stoi (buffer.take n) with
      | .error e => .error e
      | .ok result => if result < n then .ok (-1) else .ok result

def HasHeader (n : Nat) (buffer : Bytes) : Prop :=
  n ≤ buffer.length ∧ ∀ c ∈ buffer.take n, isDigit c = true

instance (n : Nat) (buffer : Bytes) : Decidable (HasHeader n buffer) :=
  inferInstanceAs (Decidable (_ ∧ _))

def headerValue (n : Nat) (buffer : Bytes) : Nat := decimalValue (buffer.take n)

theorem isDigit_not_space {c : UInt8} (h : isDigit c = true) : isSpace c = false := by
  simp only [isDigit, isSpace, Bool.and_eq_true, decide_eq_true_eq, UInt8.le_iff_toNat_le] at *
  simp only [Bool.or_eq_false_iff, beq_eq_false_iff_ne, Bool.and_eq_false_iff,
    decide_eq_false_iff_not, ne_eq, ← UInt8.toNat_inj]
  have h32 : (32 : UInt8).toNat = 32 := rfl
  have h13 : (13 : UInt8).toNat = 13 := rfl
  have h48 : (48 : UInt8).toNat = 48 := rfl
  omega

theorem isDigit_not_sign {c : UInt8} (h : isDigit c = true) : c ≠ 45 ∧ c ≠ 43 := by
  constructor <;> rintro rfl <;> exact absurd h (by decide)

theorem stoi_digits {s : Bytes} (hne : s ≠ []) (hs : ∀ c ∈ s, isDigit c = true) :
    stoi s = if intMax < decimalValue s then .error .outOfRange else .ok (decimalValue s) := by
  obtain ⟨c, t, rfl⟩ := List.exists_cons_of_ne_nil hne
  have hc := hs c List.mem_cons_self
  have hblank : (c :: t).dropWhile isSpace = c :: t := by
    simp [isDigit_not_space hc]
  have hsign := isDigit_not_sign hc
  have hrun : (c :: t).takeWhile isDigit = c :: t := List.takeWhile_eq_self_iff.mpr hs
  have hmin : ¬ ((decimalValue (c :: t) : Int) < intMin) := by unfold intMin; omega
  simp only [stoi, hblank, List.head?_cons, Option.some.injEq, hsign.1, hsign.2, or_self,
    if_false, hrun, hmin, false_or, reduceCtorEq]

theorem extractLeadingNumberLengthN_eq (buffer : Bytes) {n : Nat} (hn : 0 < n) :
    extractLeadingNumberLengthN buffer n =
      if HasHeader n buffer then
        if intMax < headerValue n buffer then .error .outOfRange
        else if headerValue n buffer < n then .ok (-1)
        else .ok (headerValue n buffer)
      else .ok (-1) := by
  unfold extractLeadingNumberLengthN
  by_cases hlen : buffer.length < n
  · have hno : ¬ HasHeader n buffer := fun h => by have := h.1; omega
    simp only [if_pos hlen, if_neg hno]
  · have htake : (buffer.take n).length = n := by simp; omega
    have hfull : ((buffer.take n).takeWhile isDigit).length = n ↔
        ∀ c ∈ buffer.take n, isDigit c = true := by
      rw [← List.takeWhile_eq_self_iff]
      constructor
      · intro h
        exact (List.takeWhile_prefix isDigit).eq_of_length (h.trans htake.symm)
      · intro h
        rw [h, htake]
    by_cases hdigits : ∀ c ∈ buffer.take n, isDigit c = true
    · have hhead : HasHeader n buffer := ⟨by omega, hdigits⟩
      have hne : buffer.take n ≠ [] := List.ne_nil_of_length_pos (by omega)
      have hvalue : stoi (buffer.take n) = if intMax < headerValue n buffer
          then .error .outOfRange else .ok (headerValue n buffer : Int) :=
        stoi_digits hne hdigits
      simp only [if_neg hlen, hfull.mpr hdigits, ne_eq, not_true_eq_false, if_false,
        if_pos hhead, hvalue]
      by_cases hbig : intMax < headerValue n buffer
      · simp only [if_pos hbig]
      · simp only [if_neg hbig, Int.ofNat_lt]
    · have hno : ¬ HasHeader n buffer := fun h => hdigits h.2
      simp only [if_neg hlen, mt hfull.mp hdigits, ne_eq, not_false_eq_true, if_true, if_neg hno]

theorem HasHeader.append {n : Nat} {buffer : Bytes} (h : n ≤ buffer.length) (more : Bytes) :
    HasHeader n (buffer ++ more) ↔ HasHeader n buffer := by
  simp only [HasHeader, List.take_append_of_le_length h, List.length_append]
  constructor
  · exact fun ⟨_, hd⟩ => ⟨h, hd⟩
  · exact fun ⟨_, hd⟩ => ⟨by omega, hd⟩

theorem headerValue_append {n : Nat} {buffer : Bytes} (h : n ≤ buffer.length) (more : Bytes) :
    headerValue n (buffer ++ more) = headerValue n buffer := by
  simp only [headerValue, List.take_append_of_le_length h]

example : extractLeadingNumberLengthN [48, 48, 49, 53, 32] 4 = .ok 15 := by decide

end MultiplexServer.Strings

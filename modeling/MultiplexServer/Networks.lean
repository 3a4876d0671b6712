import MultiplexServer.Strings

/-! `c_numbers` and the address format of `c_networks`. The scanner counts dots and numbers
in words of eight bits, and its range check asks for one of the bounds only. -/

namespace MultiplexServer
open Strings

namespace Numbers

def isInteger (s : Bytes) : Bool := !s.isEmpty && (s.find? isDigit).isSome

/-- `stringstream >> int32_t`: the number that `stoi` reads; the nearest bound where that is
out of range, and 0 where there is none. -/
def toInteger (s : Bytes) : Int :=
  match stoi s with
  | .ok i => i
  | .error .invalidArgument => 0
  | .error .outOfRange => if (s.dropWhile isSpace).head? = some 45 then intMin else intMax

def isIntegerInRange (s : Bytes) (lower upper : Int) : Bool :=
  if !isInteger s then false
  else
    let i := toInteger s
    i ≥ lower || i ≤ upper

end Numbers

namespace Networks
open Numbers

def scan (countDots countNumbers : Int8) (os : Bytes) : Bytes → Bool
  | [] =>
    if !isIntegerInRange os 0 255 then false
    else if countDots ≠ 3 || countNumbers ≠ 3 then false
    else true
  | c :: ip =>
    if isDigit c then scan countDots countNumbers (os ++ [c]) ip
    else if c = 46 then
      if !isIntegerInRange os 0 255 then false
      else scan (countDots + 1) (countNumbers + 1) [] ip
    else false

def isIpv4AddressFormat (ip : Bytes) : Bool := scan 0 0 [] ip

def IsNumber (run : Bytes) : Prop := run ≠ [] ∧ ∀ c ∈ run, isDigit c = true

instance (run : Bytes) : Decidable (IsNumber run) :=
  decidable_of_iff (run ≠ [] ∧ run.all isDigit = true) (and_congr_right' List.all_eq_true)

def DottedQuad (s : Bytes) : Prop :=
  ∃ numbers : List Bytes, s = [46].intercalate numbers ∧ numbers.length = 4 ∧
    ∀ number ∈ numbers, IsNumber number ∧ decimalValue number ≤ 255

def runs (s : Bytes) : List Bytes := s.splitOn 46

theorem not_dot_mem {run : Bytes} (h : ∀ c ∈ run, isDigit c = true) : 46 ∉ run :=
  fun hmem => absurd (h 46 hmem) (by decide)

theorem dottedQuad_iff (s : Bytes) :
    DottedQuad s ↔ (runs s).length = 4 ∧
      ∀ run ∈ runs s, IsNumber run ∧ decimalValue run ≤ 255 := by
  constructor
  · rintro ⟨numbers, rfl, hlength, hnumbers⟩
    have hruns : runs ([46].intercalate numbers) = numbers :=
      List.splitOn_intercalate 46 (fun number hnumber => not_dot_mem (hnumbers number hnumber).1.2)
        (List.ne_nil_of_length_eq_add_one hlength)
    rw [hruns]
    exact ⟨hlength, hnumbers⟩
  · rintro ⟨hlength, hruns⟩
    exact ⟨runs s, (List.intercalate_splitOn 46).symm, hlength, hruns⟩

/-! ## The range check -/

theorem isInteger_digits {run : Bytes} (h : ∀ c ∈ run, isDigit c = true) :
    isInteger run = true ↔ run ≠ [] := by
  cases run with
  | nil => simp [isInteger]
  | cons c run => simp [isInteger, h c List.mem_cons_self]

theorem isIntegerInRange_eq {lower upper : Int} (h : lower ≤ upper + 1) (s : Bytes) :
    isIntegerInRange s lower upper = isInteger s := by
  have hany : (toInteger s ≥ lower || toInteger s ≤ upper) = true := by
    rw [Bool.or_eq_true, decide_eq_true_iff, decide_eq_true_iff]
    omega
  simp only [isIntegerInRange, hany]
  cases isInteger s <;> rfl

/-! ## The scan -/

theorem countDots_eq (n : Nat) : Int8.ofNat n = 3 ↔ n % 256 = 3 := by
  rw [← Int8.toInt_inj, Int8.toInt_ofNat']
  have h3 : (3 : Int8).toInt = 3 := rfl
  rw [h3, Int.bmod_def]
  rw [Int8.size]
  split <;> omega

theorem runs_of_digits {os : Bytes} (h : ∀ c ∈ os, isDigit c = true) : runs os = [os] :=
  List.splitOn_eq_singleton (not_dot_mem h)

theorem runs_dot {os : Bytes} (h : ∀ c ∈ os, isDigit c = true) (ip : Bytes) :
    runs (os ++ 46 :: ip) = os :: runs ip :=
  List.splitOn_append_cons_self_of_not_mem (not_dot_mem h) ip

theorem digit_or_dot {numbers : List Bytes} (h : ∀ number ∈ numbers, IsNumber number) {c : UInt8}
    (hc : c ∈ [46].intercalate numbers) : isDigit c = true ∨ c = 46 := by
  induction numbers with
  | nil => cases hc
  | cons number numbers ih =>
    rw [List.forall_mem_cons] at h
    cases numbers with
    | nil => exact .inl (h.1.2 c (by simpa using hc))
    | cons other numbers =>
      rw [List.intercalate_cons_cons, List.append_assoc, List.mem_append, List.mem_append,
        List.mem_singleton] at hc
      rcases hc with hc | hc | hc
      · exact .inl (h.1.2 c hc)
      · exact .inr hc
      · exact ih h.2 hc

theorem isIntegerInRange_iff {os : Bytes} (h : ∀ c ∈ os, isDigit c = true) :
    isIntegerInRange os 0 255 = true ↔ IsNumber os := by
  rw [isIntegerInRange_eq (by decide), isInteger_digits h]
  exact (and_iff_left h).symm

theorem scan_nil (n : Nat) {os : Bytes} (hos : ∀ c ∈ os, isDigit c = true) :
    scan (Int8.ofNat n) (Int8.ofNat n) os [] = true ↔ IsNumber os ∧ n % 256 = 3 := by
  rw [scan, ← isIntegerInRange_iff hos, ← countDots_eq n]
  cases isIntegerInRange os 0 255 <;> by_cases hcount : Int8.ofNat n = 3 <;> simp [hcount]

theorem scan_dot (n : Nat) {os : Bytes} (hos : ∀ c ∈ os, isDigit c = true) (ip : Bytes) :
    scan (Int8.ofNat n) (Int8.ofNat n) os (46 :: ip) = true ↔
      IsNumber os ∧ scan (Int8.ofNat (n + 1)) (Int8.ofNat (n + 1)) [] ip = true := by
  rw [scan, if_neg (by decide), if_pos rfl, ← isIntegerInRange_iff hos, Int8.ofNat_add]
  cases isIntegerInRange os 0 255 with
  | false => simp
  | true => exact (and_iff_right rfl).symm

/-- What has been read since the last dot is in `os`; before that dot stand `n` numbers. -/
theorem scan_iff (n : Nat) {os : Bytes} (hos : ∀ c ∈ os, isDigit c = true) (ip : Bytes) :
    scan (Int8.ofNat n) (Int8.ofNat n) os ip = true ↔
      (∀ run ∈ runs (os ++ ip), IsNumber run) ∧ (n + (runs (os ++ ip)).length) % 256 = 4 := by
  induction ip generalizing n os with
  | nil =>
    rw [scan_nil n hos, List.append_nil, runs_of_digits hos, List.forall_mem_singleton,
      List.length_singleton]
    have hcount : n % 256 = 3 ↔ (n + 1) % 256 = 4 := by omega
    rw [hcount]
  | cons c ip ih =>
    by_cases hdigit : isDigit c = true
    · have hos' : ∀ x ∈ os ++ [c], isDigit x = true := by
        rw [List.forall_mem_append, List.forall_mem_singleton]
        exact ⟨hos, hdigit⟩
      rw [scan, if_pos hdigit, ih n hos', List.append_assoc, List.singleton_append]
    · by_cases hdot : c = 46
      · subst hdot
        rw [scan_dot n hos, ih (n + 1) (List.forall_mem_nil _), runs_dot hos, List.nil_append,
          List.forall_mem_cons, List.length_cons, Nat.add_right_comm, Nat.add_assoc, and_assoc]
      · rw [scan, if_neg hdigit, if_neg hdot]
        refine iff_of_false nofun fun ⟨hruns, _⟩ => ?_
        have hc : c ∈ [46].intercalate (runs (os ++ c :: ip)) := by
          rw [runs, List.intercalate_splitOn]
          exact List.mem_append_right os List.mem_cons_self
        exact (digit_or_dot hruns hc).elim hdigit hdot

/-- The format accepts numbers of any size between dots whose count is 3 modulo 256. -/
theorem isIpv4AddressFormat_iff (s : Bytes) :
    isIpv4AddressFormat s = true ↔
      (∀ run ∈ runs s, IsNumber run) ∧ (runs s).length % 256 = 4 := by
  have h := scan_iff 0 (List.forall_mem_nil _) s
  rwa [Nat.zero_add] at h

/-- The answer is right except where numbers and dots are accepted that are too many or
too large. -/
theorem isIpv4AddressFormat_right_iff (s : Bytes) :
    (isIpv4AddressFormat s = true ↔ DottedQuad s) ↔
      ((∀ run ∈ runs s, IsNumber run) → (runs s).length % 256 = 4 →
        (runs s).length = 4 ∧ ∀ run ∈ runs s, decimalValue run ≤ 255) := by
  rw [isIpv4AddressFormat_iff, dottedQuad_iff]
  constructor
  · intro h hruns hlength
    obtain ⟨hfour, hsmall⟩ := h.mp ⟨hruns, hlength⟩
    exact ⟨hfour, fun run hrun => (hsmall run hrun).2⟩
  · refine fun h => ⟨fun ⟨hruns, hlength⟩ => ?_, fun ⟨hfour, hsmall⟩ => ?_⟩
    · obtain ⟨hfour, hsmall⟩ := h hruns hlength
      exact ⟨hfour, fun run hrun => ⟨hruns run hrun, hsmall run hrun⟩⟩
    · exact ⟨fun run hrun => (hsmall run hrun).1, by rw [hfour]⟩

/-- `999.1.1.1` is accepted, and so are 260 ones with a dot between each two. -/
theorem accepted_not_dottedQuad :
    (isIpv4AddressFormat [57, 57, 57, 46, 49, 46, 49, 46, 49] = true ∧
      ¬ DottedQuad [57, 57, 57, 46, 49, 46, 49, 46, 49]) ∧
    isIpv4AddressFormat ([46].intercalate (List.replicate 260 [49])) = true ∧
      ¬ DottedQuad ([46].intercalate (List.replicate 260 [49])) := by
  have hones : runs ([46].intercalate (List.replicate 260 [49])) = List.replicate 260 [49] := by
    refine List.splitOn_intercalate 46 (fun run hrun => ?_)
      (List.ne_nil_of_length_pos (by rw [List.length_replicate]; decide))
    rw [List.eq_of_mem_replicate hrun]
    decide
  refine ⟨⟨by decide, ?_⟩, ?_, ?_⟩
  · rw [dottedQuad_iff]
    exact fun h => absurd (h.2 [57, 57, 57] (by decide)).2 (by decide)
  · rw [isIpv4AddressFormat_iff, hones, List.length_replicate]
    refine ⟨fun run hrun => ?_, rfl⟩
    rw [List.eq_of_mem_replicate hrun]
    decide
  · intro h
    have hfour := ((dottedQuad_iff _).mp h).1
    rw [hones, List.length_replicate] at hfour
    exact absurd hfour (by decide)

end Networks

end MultiplexServer

import Mathlib.Data.List.Induction
import Mathlib.Logic.Function.Basic

/-! `lock` and `unlock` of `c_network_connections`. The expected value of the exchange is
a static of `lock`: all tables share it, and an exchange that fails overwrites it. -/

namespace MultiplexServer

/-- `_locked_by_id` of every table, and the static. -/
structure ConnectionsLocks (τ : Type*) where
  lockedById : τ → Nat
  ownerObjectIdZero : Nat

inductive LockCall (τ : Type*) where
  | lock (table : τ) (ownerObjectId : Nat)
  | unlock (table : τ)
  deriving DecidableEq

namespace ConnectionsLocks

variable {τ : Type*} [DecidableEq τ]

def start : ConnectionsLocks τ := ⟨fun _ => 0, 0⟩

/-- `std::atomic_compare_exchange_weak`, without spurious failures. -/
def lock (s : ConnectionsLocks τ) (table : τ) (ownerObjectId : Nat) :
    Bool × ConnectionsLocks τ :=
  if s.lockedById table = s.ownerObjectIdZero then
    (true, { s with lockedById := Function.update s.lockedById table ownerObjectId })
  else (false, { s with ownerObjectIdZero := s.lockedById table })

def unlock (s : ConnectionsLocks τ) (table : τ) : ConnectionsLocks τ :=
  { s with lockedById := Function.update s.lockedById table 0 }

def call (s : ConnectionsLocks τ) : LockCall τ → ConnectionsLocks τ
  | .lock table ownerObjectId => (s.lock table ownerObjectId).2
  | .unlock table => s.unlock table

def run (s : ConnectionsLocks τ) (calls : List (LockCall τ)) : ConnectionsLocks τ :=
  calls.foldl call s

def answers : ConnectionsLocks τ → List (LockCall τ) → List Bool
  | _, [] => []
  | s, .lock table ownerObjectId :: calls =>
    (s.lock table ownerObjectId).1 :: answers (s.lock table ownerObjectId).2 calls
  | s, .unlock table :: calls => answers (s.unlock table) calls

def Held (table : τ) (calls : List (LockCall τ)) : Prop :=
  ∃ before ownerObjectId after, calls = before ++ .lock table ownerObjectId :: after ∧
    ((start.run before).lock table ownerObjectId).1 = true ∧ .unlock table ∉ after

/-- An attempt succeeds exactly on a table that is not held, and a failed one might as
well not have been made. -/
structure MutuallyExclusive (calls : List (LockCall τ)) : Prop where
  exclusive : ∀ before table ownerObjectId after,
    calls = before ++ .lock table ownerObjectId :: after →
    (((start.run before).lock table ownerObjectId).1 = true ↔ ¬ Held table before)
  harmless : ∀ before table ownerObjectId after,
    calls = before ++ .lock table ownerObjectId :: after →
    ((start.run before).lock table ownerObjectId).1 = false →
    ((start.run before).lock table ownerObjectId).2.answers after =
      (start.run before).answers after

end ConnectionsLocks

/-! ## The same calls on locks as they are meant -/

/-- Who holds each table, and which holders the refused attempts have met, the last one
first. -/
structure Mutexes (τ : Type*) where
  holder : τ → Option Nat
  refused : List Nat

namespace Mutexes

variable {τ : Type*} [DecidableEq τ]

def start : Mutexes τ := ⟨fun _ => none, []⟩

def call (m : Mutexes τ) : LockCall τ → Mutexes τ
  | .lock table ownerObjectId =>
    match m.holder table with
    | none => { m with holder := Function.update m.holder table (some ownerObjectId) }
    | some holder => { m with refused := holder :: m.refused }
  | .unlock table => { m with holder := Function.update m.holder table none }

def run (m : Mutexes τ) (calls : List (LockCall τ)) : Mutexes τ := calls.foldl call m

/-- A free table is tried before any attempt has been refused, and a holder that is met
differs from the last two that were met; 0 stands for those before the first. -/
def Clear (m : Mutexes τ) (table : τ) : Prop :=
  (m.holder table = none → m.refused = []) ∧
    ∀ holder ∈ m.holder table, holder ∉ (m.refused ++ [0]).take 2

instance (m : Mutexes τ) (table : τ) : Decidable (m.Clear table) :=
  inferInstanceAs (Decidable (_ ∧ _))

def ClearCalls (m : Mutexes τ) (calls : List (LockCall τ)) : Prop :=
  ∀ before table ownerObjectId after,
    calls = before ++ .lock table ownerObjectId :: after → (m.run before).Clear table

theorem run_concat (m : Mutexes τ) (calls : List (LockCall τ)) (c : LockCall τ) :
    m.run (calls ++ [c]) = (m.run calls).call c := by
  simp only [run, List.foldl_append, List.foldl_cons, List.foldl_nil]

omit [DecidableEq τ] in
theorem clear_of_free {m : Mutexes τ} {table : τ} (h : m.Clear table)
    (hfree : m.holder table = none) : m.refused = [] :=
  h.1 hfree

theorem not_mem_take_two {holder met : Nat} {earlier : List Nat} :
    holder ∉ ((met :: earlier) ++ [0]).take 2 ↔ holder ≠ met ∧ holder ≠ earlier.headD 0 := by
  cases earlier with
  | nil => simp
  | cons other earlier => simp

omit [DecidableEq τ] in
theorem clear_of_held {m : Mutexes τ} {table : τ} {holder met : Nat} {earlier : List Nat}
    (h : m.Clear table) (hheld : m.holder table = some holder)
    (hrefused : m.refused = met :: earlier) : holder ≠ met ∧ holder ≠ earlier.headD 0 := by
  have hnew := h.2 holder hheld
  rwa [hrefused, not_mem_take_two] at hnew

theorem ClearCalls.of_append_left {m : Mutexes τ} {calls more : List (LockCall τ)}
    (h : m.ClearCalls (calls ++ more)) : m.ClearCalls calls := by
  rintro before table ownerObjectId after rfl
  exact h before table ownerObjectId (after ++ more) (by simp)

theorem ClearCalls.of_append_right {m : Mutexes τ} {calls more : List (LockCall τ)}
    (h : m.ClearCalls (calls ++ more)) : (m.run calls).ClearCalls more := by
  rintro before table ownerObjectId after rfl
  have hclear := h (calls ++ before) table ownerObjectId after (by simp)
  rwa [run, List.foldl_append] at hclear

theorem ClearCalls.of_cons {m : Mutexes τ} {c : LockCall τ} {calls : List (LockCall τ)}
    (h : m.ClearCalls (c :: calls)) : (m.call c).ClearCalls calls := by
  rintro before table ownerObjectId after rfl
  exact h (c :: before) table ownerObjectId after rfl

end Mutexes

namespace ConnectionsLocks

variable {τ : Type*} [DecidableEq τ]

/-! ## Held tables, call by call -/

theorem run_concat (s : ConnectionsLocks τ) (calls : List (LockCall τ)) (c : LockCall τ) :
    s.run (calls ++ [c]) = (s.run calls).call c := by
  simp only [run, List.foldl_append, List.foldl_cons, List.foldl_nil]

theorem held_concat (table : τ) (calls : List (LockCall τ)) (c : LockCall τ) :
    Held table (calls ++ [c]) ↔
      (∃ ownerObjectId, c = .lock table ownerObjectId ∧
        ((start.run calls).lock table ownerObjectId).1 = true) ∨
      (c ≠ .unlock table ∧ Held table calls) := by
  constructor
  · rintro ⟨before, ownerObjectId, after, hsplit, hlocked, hkept⟩
    rcases List.eq_nil_or_concat after with rfl | ⟨after, last, rfl⟩
    · obtain ⟨rfl, hlast⟩ := List.append_inj' hsplit rfl
      cases hlast
      exact .inl ⟨ownerObjectId, rfl, hlocked⟩
    · rw [List.concat_eq_append] at hsplit hkept
      rw [← List.cons_append, ← List.append_assoc] at hsplit
      obtain ⟨rfl, hlast⟩ := List.append_inj' hsplit rfl
      cases hlast
      rw [List.mem_append, not_or, List.mem_singleton] at hkept
      exact .inr ⟨Ne.symm hkept.2, before, ownerObjectId, after, rfl, hlocked, hkept.1⟩
  · rintro (⟨ownerObjectId, rfl, hlocked⟩ | ⟨hc, before, ownerObjectId, after, rfl, hlocked, hkept⟩)
    · exact ⟨calls, ownerObjectId, [], rfl, hlocked, List.not_mem_nil⟩
    · refine ⟨before, ownerObjectId, after ++ [c], by simp, hlocked, ?_⟩
      rw [List.mem_append, not_or, List.mem_singleton]
      exact ⟨hkept, Ne.symm hc⟩

theorem not_held_nil (table : τ) : ¬ Held table [] := by
  rintro ⟨before, ownerObjectId, after, hsplit, -⟩
  simp at hsplit

/-! ## As long as every attempt is answered as it should be -/

structure Represents (s : ConnectionsLocks τ) (m : Mutexes τ) : Prop where
  lockedById : ∀ table, s.lockedById table = (m.holder table).getD 0
  ownerObjectIdZero : s.ownerObjectIdZero = m.refused.headD 0

variable {s : ConnectionsLocks τ} {m : Mutexes τ}

omit [DecidableEq τ] in
theorem represents_start : Represents (start : ConnectionsLocks τ) .start where
  lockedById _ := rfl
  ownerObjectIdZero := rfl

theorem lock_true_iff (table : τ) (ownerObjectId : Nat) :
    (s.lock table ownerObjectId).1 = true ↔ s.lockedById table = s.ownerObjectIdZero := by
  unfold lock
  split_ifs with h
  · exact iff_of_true rfl h
  · exact iff_of_false (by simp) h

theorem Represents.unlock (h : Represents s m) (table : τ) :
    Represents (s.unlock table) (m.call (.unlock table)) where
  lockedById other := by
    by_cases hother : other = table
    · subst hother
      simp [ConnectionsLocks.unlock, Mutexes.call]
    · simp [ConnectionsLocks.unlock, Mutexes.call, hother, h.lockedById other]
  ownerObjectIdZero := h.ownerObjectIdZero

theorem Represents.take (h : Represents s m) {table : τ} {ownerObjectId : Nat}
    (hfree : m.holder table = none) (hlocked : (s.lock table ownerObjectId).1 = true) :
    Represents (s.lock table ownerObjectId).2 (m.call (.lock table ownerObjectId)) := by
  rw [lock, if_pos ((lock_true_iff table ownerObjectId).mp hlocked)]
  simp only [Mutexes.call, hfree]
  refine ⟨fun other => ?_, h.ownerObjectIdZero⟩
  by_cases hother : other = table
  · subst hother
    simp
  · simp [hother, h.lockedById other]

theorem Represents.refuse (h : Represents s m) {table : τ} {ownerObjectId holder : Nat}
    (hheld : m.holder table = some holder)
    (hrefused : ¬ (s.lock table ownerObjectId).1 = true) :
    (s.lock table ownerObjectId).2 = { s with ownerObjectIdZero := holder } ∧
      Represents (s.lock table ownerObjectId).2 (m.call (.lock table ownerObjectId)) := by
  have hmet : s.lockedById table = holder := by rw [h.lockedById, hheld]; rfl
  rw [lock, if_neg (mt (lock_true_iff table ownerObjectId).mpr hrefused), hmet, Mutexes.call, hheld]
  exact ⟨rfl, h.lockedById, rfl⟩

theorem Represents.lock_iff (h : Represents s m) {table : τ} (hclear : m.Clear table)
    (ownerObjectId : Nat) :
    (s.lock table ownerObjectId).1 = true ↔ m.holder table = none := by
  rw [lock_true_iff, h.lockedById, h.ownerObjectIdZero]
  cases hholder : m.holder table with
  | none =>
    rw [Mutexes.clear_of_free hclear hholder]
    exact iff_of_true rfl rfl
  | some holder =>
    refine iff_of_false ?_ nofun
    cases hrefused : m.refused with
    | nil => simpa [hrefused] using hclear.2 holder hholder
    | cons met earlier => exact (Mutexes.clear_of_held hclear hholder hrefused).1

structure Follows (calls : List (LockCall τ)) : Prop where
  represents : Represents (start.run calls) (Mutexes.start.run calls)
  held : ∀ table, Held table calls ↔ (Mutexes.start.run calls).holder table ≠ none

theorem follows_nil : Follows ([] : List (LockCall τ)) where
  represents := represents_start
  held table := iff_of_false (not_held_nil table) fun h => h rfl

theorem Follows.unlock {calls : List (LockCall τ)} (h : Follows calls) (table : τ) :
    Follows (calls ++ [.unlock table]) where
  represents := by
    rw [run_concat, Mutexes.run_concat]
    exact h.represents.unlock table
  held other := by
    rw [held_concat, Mutexes.run_concat, h.held]
    by_cases hother : other = table
    · subst hother
      simp [Mutexes.call]
    · simp [Mutexes.call, hother, Ne.symm hother]

theorem Follows.lock {calls : List (LockCall τ)} (h : Follows calls) {table : τ}
    {ownerObjectId : Nat}
    (hright : ((start.run calls).lock table ownerObjectId).1 = true ↔
      (Mutexes.start.run calls).holder table = none) :
    Follows (calls ++ [.lock table ownerObjectId]) := by
  cases hholder : (Mutexes.start.run calls).holder table with
  | none =>
    have hlocked := hright.mpr hholder
    refine ⟨?_, fun other => ?_⟩
    · rw [run_concat, Mutexes.run_concat]
      exact h.represents.take hholder hlocked
    · rw [held_concat, Mutexes.run_concat, h.held]
      simp only [Mutexes.call, hholder]
      by_cases hother : other = table
      · subst hother
        simp [hlocked]
      · simp [hother, Ne.symm hother]
  | some holder =>
    have hrefused : ¬ ((start.run calls).lock table ownerObjectId).1 = true := by
      rw [hright, hholder]
      nofun
    refine ⟨?_, fun other => ?_⟩
    · rw [run_concat, Mutexes.run_concat]
      exact (h.represents.refuse hholder hrefused).2
    · rw [held_concat, Mutexes.run_concat, h.held]
      simp only [Mutexes.call, hholder]
      by_cases hother : other = table
      · subst hother
        simp [hrefused]
      · simp [Ne.symm hother]

theorem follows_of_clear {calls : List (LockCall τ)} (h : Mutexes.start.ClearCalls calls) :
    Follows calls := by
  induction calls using List.reverseRecOn with
  | nil => exact follows_nil
  | append_singleton calls c ih =>
    have hcalls : Follows calls := ih h.of_append_left
    cases c with
    | unlock table => exact hcalls.unlock table
    | lock table ownerObjectId =>
      exact hcalls.lock (hcalls.represents.lock_iff (h calls table ownerObjectId [] rfl) _)

/-! ## A refused attempt leaves its trace in the static only -/

theorem answers_of_clear {calls : List (LockCall τ)} (h : m.ClearCalls calls)
    (hs : Represents s m) {met : Nat} {earlier : List Nat} (hrefused : m.refused = met :: earlier) :
    s.answers calls = answers { s with ownerObjectIdZero := earlier.headD 0 } calls := by
  induction calls generalizing s m with
  | nil => rfl
  | cons c calls ih =>
    cases c with
    | unlock table => exact ih h.of_cons (hs.unlock table) hrefused
    | lock table ownerObjectId =>
      have hclear : m.Clear table := h [] table ownerObjectId calls rfl
      cases hholder : m.holder table with
      | none => simp [Mutexes.clear_of_free hclear hholder] at hrefused
      | some holder =>
        obtain ⟨hlast, hearlier⟩ := Mutexes.clear_of_held hclear hholder hrefused
        have hmet : s.lockedById table = holder := by rw [hs.lockedById, hholder]; rfl
        have hstatic : s.ownerObjectIdZero = met := by rw [hs.ownerObjectIdZero, hrefused]; rfl
        simp only [answers, lock, hmet, hstatic, if_neg hlast, if_neg hearlier]

theorem Represents.forget (hs : Represents s m) {table : τ} {ownerObjectId holder : Nat}
    (hheld : m.holder table = some holder)
    (hfailed : ¬ (s.lock table ownerObjectId).1 = true) :
    { (s.lock table ownerObjectId).2 with ownerObjectIdZero := m.refused.headD 0 } = s := by
  rw [(hs.refuse hheld hfailed).1, ← hs.ownerObjectIdZero]

theorem mutuallyExclusive_of_clear {calls : List (LockCall τ)}
    (h : Mutexes.start.ClearCalls calls) : MutuallyExclusive calls where
  exclusive before table ownerObjectId after hsplit := by
    have hclear := h before table ownerObjectId after hsplit
    have hbefore : Follows before := by
      subst hsplit
      exact follows_of_clear h.of_append_left
    rw [hbefore.represents.lock_iff hclear, hbefore.held, not_not]
  harmless before table ownerObjectId after hsplit hfailed := by
    subst hsplit
    have hbefore : Follows before := follows_of_clear h.of_append_left
    have hafter := h.of_append_right.of_cons
    have hrefused : ¬ ((start.run before).lock table ownerObjectId).1 = true := by simp [hfailed]
    have hclear := h before table ownerObjectId after rfl
    cases hholder : (Mutexes.start.run before).holder table with
    | none => exact absurd ((hbefore.represents.lock_iff hclear _).mpr hholder) hrefused
    | some holder =>
      have hnext := (hbefore.represents.refuse hholder hrefused).2
      have hmet : ((Mutexes.start.run before).call (.lock table ownerObjectId)).refused =
          holder :: (Mutexes.start.run before).refused := by
        simp only [Mutexes.call, hholder]
      rw [answers_of_clear hafter hnext hmet, hbefore.represents.forget hholder hrefused]

/-! ## Where the static shows, a state is not clear -/

/-- The last refused attempt has met another holder than the one before, and what comes
after does not notice that it has been made. -/
def Forgets (s : ConnectionsLocks τ) (m : Mutexes τ) (calls : List (LockCall τ)) : Prop :=
  ∀ met earlier, m.refused = met :: earlier → met ≠ earlier.headD 0 ∧
    s.answers calls = answers { s with ownerObjectIdZero := earlier.headD 0 } calls

theorem clear_of_forgets (hs : Represents s m) {table : τ} {ownerObjectId : Nat}
    {calls : List (LockCall τ)} (h : Forgets s m (.lock table ownerObjectId :: calls))
    (hright : (s.lock table ownerObjectId).1 = true ↔ m.holder table = none) :
    m.Clear table := by
  rw [lock_true_iff, hs.lockedById, hs.ownerObjectIdZero] at hright
  cases hrefused : m.refused with
  | nil =>
    rw [hrefused] at hright
    refine ⟨fun _ => hrefused, fun holder hheld => ?_⟩
    rw [Option.mem_def.mp hheld] at hright
    simpa [hrefused] using hright
  | cons met earlier =>
    obtain ⟨hother, hanswers⟩ := h met earlier hrefused
    -- the word equals both ids or neither, and they differ
    have hsame : (m.holder table).getD 0 = met ↔ (m.holder table).getD 0 = earlier.headD 0 := by
      have hfirst := (List.cons.inj hanswers).1
      rw [Bool.eq_iff_iff, lock_true_iff, lock_true_iff, hs.lockedById, hs.ownerObjectIdZero,
        hrefused] at hfirst
      exact hfirst
    have hword : (m.holder table).getD 0 ≠ met := fun hmet => hother (hmet ▸ hsame.mp hmet)
    rw [hrefused] at hright
    refine ⟨fun hfree => absurd (hright.mpr hfree) hword, fun holder hheld => ?_⟩
    rw [Option.mem_def.mp hheld] at hword hsame
    rw [hrefused, Mutexes.not_mem_take_two]
    exact ⟨hword, mt hsame.mpr hword⟩

theorem Represents.forgets_lock (hs : Represents s m) {table : τ} {ownerObjectId : Nat}
    {after : List (LockCall τ)} (hclear : m.Clear table)
    (hright : (s.lock table ownerObjectId).1 = true ↔ m.holder table = none)
    (hharmless : (s.lock table ownerObjectId).1 = false →
      (s.lock table ownerObjectId).2.answers after = s.answers after) :
    Forgets (s.lock table ownerObjectId).2 (m.call (.lock table ownerObjectId)) after := by
  intro met earlier hrefused
  cases hholder : m.holder table with
  | none =>
    simp only [Mutexes.call, hholder, Mutexes.clear_of_free hclear hholder] at hrefused
    cases hrefused
  | some holder =>
    simp only [Mutexes.call, hholder, List.cons.injEq] at hrefused
    obtain ⟨rfl, rfl⟩ := hrefused
    have hfailed : ¬ (s.lock table ownerObjectId).1 = true := by
      rw [hright, hholder]
      nofun
    constructor
    · rw [lock_true_iff, hs.lockedById, hholder, hs.ownerObjectIdZero] at hfailed
      exact hfailed
    · rw [hs.forget hholder hfailed]
      exact hharmless (Bool.eq_false_iff.mpr hfailed)

theorem follows_of_mutuallyExclusive {calls after : List (LockCall τ)}
    (h : MutuallyExclusive (calls ++ after)) :
    Follows calls ∧ Forgets (start.run calls) (Mutexes.start.run calls) after := by
  induction calls using List.reverseRecOn generalizing after with
  | nil => exact ⟨follows_nil, fun met earlier hrefused => by cases hrefused⟩
  | append_singleton calls c ih =>
    rw [List.append_assoc, List.singleton_append] at h
    obtain ⟨hfollows, hforgets⟩ := ih h
    rw [run_concat, Mutexes.run_concat]
    cases c with
    | unlock table => exact ⟨hfollows.unlock table, hforgets⟩
    | lock table ownerObjectId =>
      have hright : ((start.run calls).lock table ownerObjectId).1 = true ↔
          (Mutexes.start.run calls).holder table = none := by
        rw [h.exclusive calls table ownerObjectId after rfl, hfollows.held, not_not]
      have hclear := clear_of_forgets hfollows.represents hforgets hright
      have hharmless := h.harmless calls table ownerObjectId after rfl
      exact ⟨hfollows.lock hright, hfollows.represents.forgets_lock hclear hright hharmless⟩

theorem clear_of_mutuallyExclusive {calls : List (LockCall τ)} (h : MutuallyExclusive calls) :
    Mutexes.start.ClearCalls calls := by
  rintro before table ownerObjectId after rfl
  obtain ⟨hfollows, hforgets⟩ := follows_of_mutuallyExclusive h
  refine clear_of_forgets hfollows.represents hforgets ?_
  rw [h.exclusive before table ownerObjectId after rfl, hfollows.held, not_not]

/-- The locks exclude each other exactly in runs whose every attempt is clear. -/
theorem mutuallyExclusive_iff (calls : List (LockCall τ)) :
    MutuallyExclusive calls ↔ Mutexes.start.ClearCalls calls :=
  ⟨clear_of_mutuallyExclusive, mutuallyExclusive_of_clear⟩

/-- The owner with the first id holds a table that looks free; and a table that has been
given back is refused once, because an attempt on it was refused before. -/
theorem not_mutuallyExclusive :
    ¬ MutuallyExclusive [LockCall.lock () 0, .lock () 1] ∧
    ¬ MutuallyExclusive [LockCall.lock () 1, .lock () 2, .unlock (), .lock () 2] := by
  constructor
  · intro h
    have hclear := clear_of_mutuallyExclusive h [.lock () 0] () 1 [] rfl
    exact absurd hclear (by decide)
  · intro h
    have hclear := clear_of_mutuallyExclusive h [.lock () 1, .lock () 2, .unlock ()] () 2 [] rfl
    exact absurd hclear (by decide)

end ConnectionsLocks

end MultiplexServer

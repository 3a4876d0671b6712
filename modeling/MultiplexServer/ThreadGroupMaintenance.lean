import Mathlib.Data.Finset.Card
import MultiplexServer.Library.Machine

/-! `do_thread_group_maintenance` of `c_thread_group`, in steps between which the threads
change their flags. A thread is its number in the order of creation; a set is scanned in
any order. A flag changes only once, so that its two reads count as one. -/

namespace MultiplexServer

/-- Where a call of `do_thread_group_maintenance` stands: which threads of the set are
still to be scanned, the thread whose `exit` is read next, how many threads are still to
be made. -/
inductive MaintenancePc where
  | idle
  | scanningExiting (left : Finset Nat)
  | scanningActive (left : Finset Nat)
  | readingExit (thread : Nat) (left : Finset Nat)
  | refilling (n : Nat)

/-- The three sets, the flags of the threads, and the calls in which a thread was found not
alive and in which it was dropped. -/
structure ThreadGroup where
  activeThreads : Finset Nat
  exitingThreads : Finset Nat
  deadThreads : Finset Nat
  created : Nat
  alive : Nat → Bool
  exit : Nat → Bool
  calls : Nat
  foundNotAlive : Nat → Option Nat
  dropped : Nat → Option Nat
  pc : MaintenancePc

inductive GroupStep where
  | setNotAlive (thread : Nat)
  | setExit (thread : Nat)
  | call
  | scan (thread : Nat)
  | proceed

namespace ThreadGroup

def goto (s : ThreadGroup) (pc : MaintenancePc) : ThreadGroup := { s with pc }

def clearDead (s : ThreadGroup) : ThreadGroup :=
  { s with
    deadThreads := ∅
    calls := s.calls + 1
    dropped := fun t => if t ∈ s.deadThreads then some (s.calls + 1) else s.dropped t }

def moveExitingToDead (s : ThreadGroup) (t : Nat) : ThreadGroup :=
  { s with
    deadThreads := insert t s.deadThreads
    exitingThreads := s.exitingThreads.erase t
    foundNotAlive := Function.update s.foundNotAlive t (some s.calls) }

def moveActiveToDead (s : ThreadGroup) (t : Nat) : ThreadGroup :=
  { s with
    deadThreads := insert t s.deadThreads
    activeThreads := s.activeThreads.erase t
    foundNotAlive := Function.update s.foundNotAlive t (some s.calls) }

def moveActiveToExiting (s : ThreadGroup) (t : Nat) : ThreadGroup :=
  { s with
    exitingThreads := insert t s.exitingThreads
    activeThreads := s.activeThreads.erase t }

def getThreadPrestart (s : ThreadGroup) : ThreadGroup :=
  { s with
    activeThreads := insert s.created s.activeThreads
    created := s.created + 1
    alive := Function.update s.alive s.created true
    exit := Function.update s.exit s.created false }

/-- `_initial_size - _active_threads.size()`. -/
def missing (initialSize : UInt64) (s : ThreadGroup) : UInt64 :=
  initialSize - .ofNat s.activeThreads.card

def step (initialSize : UInt64) (a : GroupStep) (s : ThreadGroup) : Option ThreadGroup :=
  match a, s.pc with
  | .setNotAlive t, _ =>
    if t < s.created then some { s with alive := Function.update s.alive t false } else none
  | .setExit t, _ =>
    if t < s.created then some { s with exit := Function.update s.exit t true } else none
  | .call, .idle => some (s.clearDead.goto (.scanningExiting s.exitingThreads))
  | .scan t, .scanningExiting left =>
    if t ∉ left then none
    else if !s.alive t then some ((s.moveExitingToDead t).goto (.scanningExiting (left.erase t)))
    else some (s.goto (.scanningExiting (left.erase t)))
  | .proceed, .scanningExiting left =>
    if left = ∅ then some (s.goto (.scanningActive s.activeThreads)) else none
  | .scan t, .scanningActive left =>
    if t ∉ left then none
    else if !s.alive t then some ((s.moveActiveToDead t).goto (.scanningActive (left.erase t)))
    else some (s.goto (.readingExit t (left.erase t)))
  | .proceed, .readingExit t left =>
    if s.exit t then some ((s.moveActiveToExiting t).goto (.scanningActive left))
    else some (s.goto (.scanningActive left))
  | .proceed, .scanningActive left =>
    if left = ∅ then some (s.goto (.refilling (s.missing initialSize).toNat)) else none
  | .proceed, .refilling (n + 1) => some (s.getThreadPrestart.goto (.refilling n))
  | .proceed, .refilling 0 => some (s.goto .idle)
  | _, _ => none

def start (initialSize : UInt64) : ThreadGroup where
  activeThreads := .range initialSize.toNat
  exitingThreads := ∅
  deadThreads := ∅
  created := initialSize.toNat
  alive _ := true
  exit _ := false
  calls := 0
  foundNotAlive _ := none
  dropped _ := none
  pc := .idle

def machine (initialSize : UInt64) : Machine ThreadGroup GroupStep :=
  ⟨start initialSize, step initialSize⟩

def InPool (s : ThreadGroup) (t : Nat) : Prop :=
  t ∈ s.activeThreads ∨ t ∈ s.exitingThreads ∨ t ∈ s.deadThreads

/-- A thread was found not alive in one call and dropped in a later one. -/
def Buried (s : ThreadGroup) (t : Nat) : Prop :=
  ∃ found dropped, s.foundNotAlive t = some found ∧ s.dropped t = some dropped ∧
    found < dropped ∧ s.alive t = false

structure Kept (s : ThreadGroup) : Prop where
  activeExiting : Disjoint s.activeThreads s.exitingThreads
  activeDead : Disjoint s.activeThreads s.deadThreads
  exitingDead : Disjoint s.exitingThreads s.deadThreads
  created : ∀ t, s.InPool t → t < s.created
  accounted : ∀ t < s.created, s.InPool t ∨ s.Buried t
  gone : ∀ t, s.InPool t ∨ s.created ≤ t → s.dropped t = none
  dead : ∀ t ∈ s.deadThreads, s.alive t = false ∧ ∃ found ≤ s.calls, s.foundNotAlive t = some found

def Sized (k : Nat) (s : ThreadGroup) : Prop :=
  match s.pc with
  | .idle => s.activeThreads.card = k
  | .scanningExiting left => left ⊆ s.exitingThreads ∧ s.activeThreads.card = k
  | .scanningActive left => left ⊆ s.activeThreads ∧ s.activeThreads.card ≤ k
  | .readingExit t left =>
    t ∈ s.activeThreads ∧ left ⊆ s.activeThreads.erase t ∧ s.activeThreads.card ≤ k
  | .refilling n => s.activeThreads.card + n = k

variable {s : ThreadGroup} {t : Nat}

theorem Kept.goto (h : Kept s) (pc : MaintenancePc) : Kept (s.goto pc) where
  activeExiting := h.activeExiting
  activeDead := h.activeDead
  exitingDead := h.exitingDead
  created := h.created
  accounted := h.accounted
  gone := h.gone
  dead := h.dead

theorem Kept.flags (h : Kept s) {alive exit : Nat → Bool}
    (hoff : ∀ u, s.alive u = false → alive u = false) : Kept { s with alive, exit } where
  activeExiting := h.activeExiting
  activeDead := h.activeDead
  exitingDead := h.exitingDead
  created := h.created
  accounted u hu := by
    rcases h.accounted u hu with hpool | ⟨found, dropped, hfound, hdropped, hlt, halive⟩
    · exact .inl hpool
    · exact .inr ⟨found, dropped, hfound, hdropped, hlt, hoff u halive⟩
  gone := h.gone
  dead u hu := ⟨hoff u (h.dead u hu).1, (h.dead u hu).2⟩

theorem update_false (alive : Nat → Bool) (u : Nat) (h : alive u = false) :
    Function.update alive t false u = false := by
  by_cases hu : u = t
  · subst hu
    exact Function.update_self _ _ _
  · rwa [Function.update_of_ne hu]

theorem Kept.inPool_clearDead (h : Kept s) {u : Nat} (hu : s.clearDead.InPool u) :
    s.InPool u ∧ u ∉ s.deadThreads := by
  rcases hu with hu | hu | hu
  · exact ⟨.inl hu, Finset.disjoint_left.mp h.activeDead hu⟩
  · exact ⟨.inr (.inl hu), Finset.disjoint_left.mp h.exitingDead hu⟩
  · cases Finset.notMem_empty u hu

theorem Kept.clearDead (h : Kept s) : Kept s.clearDead where
  activeExiting := h.activeExiting
  activeDead := Finset.disjoint_empty_right _
  exitingDead := Finset.disjoint_empty_right _
  created u hu := h.created u (h.inPool_clearDead hu).1
  accounted u hu := by
    by_cases hdead : u ∈ s.deadThreads
    · obtain ⟨halive, found, hle, hfound⟩ := h.dead u hdead
      exact .inr ⟨found, s.calls + 1, hfound, if_pos hdead, Nat.lt_succ_of_le hle, halive⟩
    · rcases h.accounted u hu with (hpool | hpool | hpool) |
        ⟨found, dropped, hfound, hdropped, hlast⟩
      · exact .inl (.inl hpool)
      · exact .inl (.inr (.inl hpool))
      · exact absurd hpool hdead
      · exact .inr ⟨found, dropped, hfound, (if_neg hdead).trans hdropped, hlast⟩
  gone u hu := by
    rcases hu with hu | hu
    · obtain ⟨hpool, hdead⟩ := h.inPool_clearDead hu
      exact (if_neg hdead).trans (h.gone u (.inl hpool))
    · have hdead : u ∉ s.deadThreads := fun hin =>
        Nat.not_lt.mpr hu (h.created u (.inr (.inr hin)))
      exact (if_neg hdead).trans (h.gone u (.inr hu))
  dead u hu := by cases Finset.notMem_empty u hu

theorem Kept.accounts (h : Kept s) {s' : ThreadGroup} (ht : s.InPool t)
    (hpool : ∀ u, s'.InPool u ↔ s.InPool u) (hcreated : s'.created = s.created)
    (hdropped : s'.dropped = s.dropped) (halive : s'.alive = s.alive)
    (hfound : ∀ u, u ≠ t → s'.foundNotAlive u = s.foundNotAlive u) :
    (∀ u, s'.InPool u → u < s'.created) ∧ (∀ u < s'.created, s'.InPool u ∨ s'.Buried u) ∧
      ∀ u, s'.InPool u ∨ s'.created ≤ u → s'.dropped u = none := by
  refine ⟨fun u hu => ?_, fun u hu => ?_, fun u hu => ?_⟩
  · rw [hcreated]
    exact h.created u ((hpool u).mp hu)
  · rw [hcreated] at hu
    rcases h.accounted u hu with hin | ⟨found, dropped, hf, hd, hlast⟩
    · exact .inl ((hpool u).mpr hin)
    · have hne : u ≠ t := by
        rintro rfl
        rw [h.gone u (.inl ht)] at hd
        cases hd
      exact .inr ⟨found, dropped, (hfound u hne).trans hf, hdropped ▸ hd, halive ▸ hlast⟩
  · rw [hpool, hcreated] at hu
    rw [hdropped]
    exact h.gone u hu

theorem disjoint_move {source target : Finset Nat} (h : Disjoint source target) :
    Disjoint (source.erase t) (insert t target) :=
  Finset.disjoint_insert_right.mpr
    ⟨Finset.notMem_erase t source, h.mono_left (Finset.erase_subset t source)⟩

theorem disjoint_enter {other target : Finset Nat} (h : Disjoint other target) (ht : t ∉ other) :
    Disjoint other (insert t target) :=
  Finset.disjoint_insert_right.mpr ⟨ht, h⟩

theorem mem_move {source target : Finset Nat} (ht : t ∈ source) (u : Nat) :
    (u ∈ source.erase t ∨ u ∈ insert t target) ↔ u ∈ source ∨ u ∈ target := by
  rw [Finset.mem_erase, Finset.mem_insert]
  by_cases hu : u = t
  · subst hu
    simp [ht]
  · simp [hu]

theorem inPool_moveExitingToDead (ht : t ∈ s.exitingThreads) (u : Nat) :
    (s.moveExitingToDead t).InPool u ↔ s.InPool u :=
  or_congr_right (mem_move ht u)

theorem inPool_moveActiveToExiting (ht : t ∈ s.activeThreads) (u : Nat) :
    (s.moveActiveToExiting t).InPool u ↔ s.InPool u := by
  have hmove := @mem_move t s.activeThreads s.exitingThreads ht u
  unfold InPool
  rw [← or_assoc, ← or_assoc, ← hmove]
  rfl

theorem inPool_moveActiveToDead (ht : t ∈ s.activeThreads) (u : Nat) :
    (s.moveActiveToDead t).InPool u ↔ s.InPool u := by
  have hmove := @mem_move t s.activeThreads s.deadThreads ht u
  unfold InPool
  rw [or_left_comm, or_left_comm (a := u ∈ s.activeThreads), ← hmove]
  rfl

theorem Kept.dead_insert (h : Kept s) (halive : s.alive t = false) :
    ∀ u ∈ insert t s.deadThreads, s.alive u = false ∧ ∃ found ≤ s.calls,
      Function.update s.foundNotAlive t (some s.calls) u = some found := by
  intro u hu
  by_cases hut : u = t
  · subst hut
    exact ⟨halive, s.calls, Nat.le_refl _, Function.update_self _ _ _⟩
  · rw [Function.update_of_ne hut]
    exact h.dead u ((Finset.mem_insert.mp hu).resolve_left hut)

theorem Kept.moveExitingToDead (h : Kept s) (ht : t ∈ s.exitingThreads)
    (halive : s.alive t = false) : Kept (s.moveExitingToDead t) := by
  obtain ⟨hcreated, haccounted, hgone⟩ := h.accounts (.inr (.inl ht)) (inPool_moveExitingToDead ht)
    rfl rfl rfl fun u hu => Function.update_of_ne hu _ _
  have hactive : t ∉ s.activeThreads := Finset.disjoint_right.mp h.activeExiting ht
  exact {
    activeExiting := h.activeExiting.mono_right (Finset.erase_subset _ _)
    activeDead := disjoint_enter h.activeDead hactive
    exitingDead := disjoint_move h.exitingDead
    created := hcreated
    accounted := haccounted
    gone := hgone
    dead := h.dead_insert halive }

theorem Kept.moveActiveToDead (h : Kept s) (ht : t ∈ s.activeThreads) (halive : s.alive t = false) :
    Kept (s.moveActiveToDead t) := by
  obtain ⟨hcreated, haccounted, hgone⟩ := h.accounts (.inl ht) (inPool_moveActiveToDead ht)
    rfl rfl rfl fun u hu => Function.update_of_ne hu _ _
  have hexiting : t ∉ s.exitingThreads := Finset.disjoint_left.mp h.activeExiting ht
  exact {
    activeExiting := h.activeExiting.mono_left (Finset.erase_subset _ _)
    activeDead := disjoint_move h.activeDead
    exitingDead := disjoint_enter h.exitingDead hexiting
    created := hcreated
    accounted := haccounted
    gone := hgone
    dead := h.dead_insert halive }

theorem Kept.moveActiveToExiting (h : Kept s) (ht : t ∈ s.activeThreads) :
    Kept (s.moveActiveToExiting t) := by
  obtain ⟨hcreated, haccounted, hgone⟩ := h.accounts (.inl ht) (inPool_moveActiveToExiting ht)
    rfl rfl rfl fun _ _ => rfl
  have hdead : t ∉ s.deadThreads := Finset.disjoint_left.mp h.activeDead ht
  exact {
    activeExiting := disjoint_move h.activeExiting
    activeDead := h.activeDead.mono_left (Finset.erase_subset _ _)
    exitingDead := (disjoint_enter h.exitingDead.symm hdead).symm
    created := hcreated
    accounted := haccounted
    gone := hgone
    dead := h.dead }

theorem Kept.not_inPool_created (h : Kept s) : ¬ s.InPool s.created :=
  fun hin => Nat.lt_irrefl _ (h.created _ hin)

theorem inPool_getThreadPrestart (u : Nat) :
    s.getThreadPrestart.InPool u ↔ u = s.created ∨ s.InPool u :=
  (or_congr_left Finset.mem_insert).trans or_assoc

theorem Kept.getThreadPrestart (h : Kept s) : Kept s.getThreadPrestart := by
  have hnew := h.not_inPool_created
  have hold : ∀ u < s.created, s.getThreadPrestart.alive u = s.alive u :=
    fun u hu => Function.update_of_ne (Nat.ne_of_lt hu) _ _
  refine ⟨?_, ?_, h.exitingDead, fun u hu => ?_, fun u hu => ?_, fun u hu => ?_, fun u hu => ?_⟩
  · exact (disjoint_enter h.activeExiting.symm fun hin => hnew (.inr (.inl hin))).symm
  · exact (disjoint_enter h.activeDead.symm fun hin => hnew (.inr (.inr hin))).symm
  · rcases (inPool_getThreadPrestart u).mp hu with rfl | hin
    · exact Nat.lt_succ_self _
    · exact Nat.lt_succ_of_lt (h.created u hin)
  · rw [inPool_getThreadPrestart]
    rcases Nat.lt_succ_iff_lt_or_eq.mp hu with hlt | heq
    · rcases h.accounted u hlt with hin | ⟨found, dropped, hfound, hdropped, hearlier, halive⟩
      · exact .inl (.inr hin)
      · exact .inr ⟨found, dropped, hfound, hdropped, hearlier, (hold u hlt).trans halive⟩
    · exact .inl (.inl heq)
  · rw [inPool_getThreadPrestart] at hu
    refine h.gone u ?_
    rcases hu with (rfl | hin) | hle
    · exact .inr (Nat.le_refl _)
    · exact .inl hin
    · exact .inr (Nat.le_of_succ_le hle)
  · rw [hold u (h.created u (.inr (.inr hu)))]
    exact h.dead u hu

/-! ## One step -/

theorem missing_toNat {initialSize : UInt64} (h : s.activeThreads.card ≤ initialSize.toNat) :
    (s.missing initialSize).toNat = initialSize.toNat - s.activeThreads.card := by
  have hsmall : s.activeThreads.card < 2 ^ 64 := Nat.lt_of_le_of_lt h initialSize.toNat_lt
  have hcard : (UInt64.ofNat s.activeThreads.card).toNat = s.activeThreads.card :=
    UInt64.toNat_ofNat_of_lt hsmall
  rw [missing, UInt64.toNat_sub_of_le, hcard]
  rwa [UInt64.le_iff_toNat_le, hcard]

structure Whole (initialSize : UInt64) (s : ThreadGroup) : Prop where
  kept : Kept s
  sized : Sized initialSize.toNat s

theorem whole_start (initialSize : UInt64) : Whole initialSize (start initialSize) where
  kept := {
    activeExiting := Finset.disjoint_empty_right _
    activeDead := Finset.disjoint_empty_right _
    exitingDead := Finset.disjoint_empty_right _
    created := by
      rintro u (hu | hu | hu)
      · exact Finset.mem_range.mp hu
      · cases Finset.notMem_empty u hu
      · cases Finset.notMem_empty u hu
    accounted := fun u hu => .inl (.inl (Finset.mem_range.mpr hu))
    gone := fun _ _ => rfl
    dead := fun u hu => absurd hu (Finset.notMem_empty u) }
  sized := Finset.card_range _

variable {initialSize : UInt64} {s' : ThreadGroup}

theorem Whole.call (h : Whole initialSize s) (hpc : s.pc = .idle)
    (hstep : step initialSize .call s = some s') : Whole initialSize s' := by
  have hsized := h.sized
  simp only [Sized, hpc] at hsized
  simp only [step, hpc] at hstep
  cases hstep
  exact ⟨h.kept.clearDead.goto _, And.intro (Finset.Subset.refl _) hsized⟩

theorem Whole.scanExiting (h : Whole initialSize s) {left : Finset Nat}
    (hpc : s.pc = .scanningExiting left) (hstep : step initialSize (.scan t) s = some s') :
    Whole initialSize s' := by
  have hsized := h.sized
  simp only [Sized, hpc] at hsized
  simp only [step, hpc] at hstep
  obtain ⟨hleft, hcard⟩ := hsized
  split_ifs at hstep with hmem halive
  · have ht : t ∈ s.exitingThreads := hleft (by simpa using hmem)
    cases hstep
    refine ⟨(h.kept.moveExitingToDead ht (by simpa using halive)).goto _, And.intro ?_ hcard⟩
    exact Finset.erase_subset_erase t hleft
  · cases hstep
    exact ⟨h.kept.goto _, And.intro ((Finset.erase_subset t left).trans hleft) hcard⟩

theorem Whole.scanActive (h : Whole initialSize s) {left : Finset Nat}
    (hpc : s.pc = .scanningActive left) (hstep : step initialSize (.scan t) s = some s') :
    Whole initialSize s' := by
  have hsized := h.sized
  simp only [Sized, hpc] at hsized
  simp only [step, hpc] at hstep
  obtain ⟨hleft, hcard⟩ := hsized
  split_ifs at hstep with hmem halive
  · have ht : t ∈ s.activeThreads := hleft (by simpa using hmem)
    cases hstep
    refine ⟨(h.kept.moveActiveToDead ht (by simpa using halive)).goto _, And.intro ?_ ?_⟩
    · exact Finset.erase_subset_erase t hleft
    · exact (Finset.card_erase_le).trans hcard
  · have ht : t ∈ s.activeThreads := hleft (by simpa using hmem)
    cases hstep
    exact ⟨h.kept.goto _, ht, Finset.erase_subset_erase t hleft, hcard⟩

theorem Whole.proceed (h : Whole initialSize s)
    (hstep : step initialSize .proceed s = some s') : Whole initialSize s' := by
  have hsized := h.sized
  cases hpc : s.pc with
  | idle => simp [step, hpc] at hstep
  | scanningExiting left =>
    simp only [Sized, hpc] at hsized
    simp only [step, hpc, Option.ite_none_right_eq_some] at hstep
    obtain ⟨-, hstep⟩ := hstep
    cases hstep
    exact ⟨h.kept.goto _, And.intro (Finset.Subset.refl _) (Nat.le_of_eq hsized.2)⟩
  | scanningActive left =>
    simp only [Sized, hpc] at hsized
    simp only [step, hpc, Option.ite_none_right_eq_some] at hstep
    obtain ⟨-, hstep⟩ := hstep
    cases hstep
    refine ⟨h.kept.goto _, ?_⟩
    have hmissing := missing_toNat hsized.2
    have hle := hsized.2
    change s.activeThreads.card + (s.missing initialSize).toNat = initialSize.toNat
    omega
  | readingExit t left =>
    simp only [Sized, hpc] at hsized
    simp only [step, hpc] at hstep
    obtain ⟨ht, hleft, hcard⟩ := hsized
    split_ifs at hstep with hexit
    · cases hstep
      exact ⟨(h.kept.moveActiveToExiting ht).goto _,
        And.intro hleft (Finset.card_erase_le.trans hcard)⟩
    · cases hstep
      exact ⟨h.kept.goto _, And.intro (hleft.trans (Finset.erase_subset t _)) hcard⟩
  | refilling n =>
    simp only [Sized, hpc] at hsized
    cases n with
    | zero =>
      simp only [step, hpc] at hstep
      cases hstep
      exact ⟨h.kept.goto _, hsized⟩
    | succ n =>
      simp only [step, hpc] at hstep
      cases hstep
      refine ⟨h.kept.getThreadPrestart.goto _, ?_⟩
      have hnew : s.created ∉ s.activeThreads := fun hin => h.kept.not_inPool_created (.inl hin)
      have hcard := Finset.card_insert_of_notMem hnew
      change (insert s.created s.activeThreads).card + n = initialSize.toNat
      omega

theorem Whole.step (h : Whole initialSize s) (a : GroupStep)
    (hstep : ThreadGroup.step initialSize a s = some s') : Whole initialSize s' := by
  cases a with
  | setNotAlive t =>
    simp only [ThreadGroup.step, Option.ite_none_right_eq_some] at hstep
    obtain ⟨-, hstep⟩ := hstep
    cases hstep
    exact ⟨h.kept.flags (update_false s.alive), h.sized⟩
  | setExit t =>
    simp only [ThreadGroup.step, Option.ite_none_right_eq_some] at hstep
    obtain ⟨-, hstep⟩ := hstep
    cases hstep
    exact ⟨h.kept.flags fun _ halive => halive, h.sized⟩
  | call =>
    cases hpc : s.pc with
    | idle => exact h.call hpc hstep
    | scanningExiting | scanningActive | readingExit | refilling =>
      simp [ThreadGroup.step, hpc] at hstep
  | scan t =>
    cases hpc : s.pc with
    | scanningExiting left => exact h.scanExiting hpc hstep
    | scanningActive left => exact h.scanActive hpc hstep
    | idle | readingExit | refilling => simp [ThreadGroup.step, hpc] at hstep
  | proceed => exact h.proceed hstep

/-! ## Runs -/

theorem whole_of_reachable (h : (machine initialSize).Reachable s) : Whole initialSize s :=
  h.invariant (whole_start initialSize) fun _ _ a _ hs hstep => hs.step a hstep

theorem Whole.card_le (h : Whole initialSize s) : s.activeThreads.card ≤ initialSize.toNat := by
  have hsized := h.sized
  cases hpc : s.pc with
  | idle =>
    simp only [Sized, hpc] at hsized
    exact Nat.le_of_eq hsized
  | scanningExiting left =>
    simp only [Sized, hpc] at hsized
    exact Nat.le_of_eq hsized.2
  | scanningActive left =>
    simp only [Sized, hpc] at hsized
    exact hsized.2
  | readingExit t left =>
    simp only [Sized, hpc] at hsized
    exact hsized.2.2
  | refilling n =>
    simp only [Sized, hpc] at hsized
    omega

/-- However the threads change their flags, maintenance keeps the number of active threads,
the sets apart and every thread in the pool until it is safe to drop it. -/
theorem maintenance_keeps_pool (h : (machine initialSize).Reachable s) :
    (s.pc = .idle → s.activeThreads.card = initialSize.toNat) ∧
    s.activeThreads.card ≤ initialSize.toNat ∧
    Disjoint s.activeThreads s.exitingThreads ∧ Disjoint s.activeThreads s.deadThreads ∧
    Disjoint s.exitingThreads s.deadThreads ∧
    ∀ t < s.created, s.InPool t ∨ s.Buried t := by
  have hwhole := whole_of_reachable h
  refine ⟨fun hpc => ?_, hwhole.card_le, hwhole.kept.activeExiting, hwhole.kept.activeDead,
    hwhole.kept.exitingDead, hwhole.kept.accounted⟩
  have hsized := hwhole.sized
  simpa only [Sized, hpc] using hsized

def replacing : List GroupStep :=
  [.setNotAlive 0, .call, .setExit 1, .proceed, .scan 1, .proceed, .scan 0, .proceed, .proceed,
    .proceed, .proceed, .call, .scan 1, .proceed, .scan 2, .proceed, .scan 3, .proceed, .proceed,
    .proceed]

theorem maintenance_keeps_pool_replaced :
    ∃ s, (machine 2).run replacing (start 2) = some s ∧ s.exitingThreads = {1} ∧
      s.activeThreads.card = 2 ∧ s.Buried 0 := by
  have hrun : ∃ s, (machine 2).run replacing (start 2) = some s ∧ s.pc = .idle ∧
      s.exitingThreads = {1} ∧ s.Buried 0 :=
    ⟨_, rfl, rfl, by decide, 1, 2, rfl, rfl, by decide, rfl⟩
  obtain ⟨s, hrun, hpc, hexiting, hburied⟩ := hrun
  have hpool := maintenance_keeps_pool (Machine.reachable_of_run hrun)
  exact ⟨s, hrun, hexiting, hpool.1 hpc, hburied⟩

end ThreadGroup

end MultiplexServer

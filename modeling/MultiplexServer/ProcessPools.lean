import MultiplexServer.Process

/-! One pool of the process with its threads: what the steps of a thread, of the call that
maintains the pool and of `stop_group` leave of the order between the sets of the group and
the places of the threads. -/

namespace MultiplexServer

namespace ThreadGroup

structure Frame (group group' : ThreadGroup) : Prop where
  alive : group'.alive = group.alive
  created : group'.created = group.created
  inPool : ∀ u, group'.InPool u ↔ group.InPool u

variable {size : UInt64} {group group' : ThreadGroup} {t : Nat} {left : Finset Nat}

theorem frame_scanningExiting (h : Whole size group) (hpc : group.pc = .scanningExiting left)
    (hstep : step size (Process.scanStep t left) group = some group') : Frame group group' := by
  have hsized := h.sized
  simp only [Sized, hpc] at hsized
  unfold Process.scanStep at hstep
  split_ifs at hstep with hleft
  · simp only [step, hpc, if_pos hleft] at hstep
    cases hstep
    exact ⟨rfl, rfl, fun _ => Iff.rfl⟩
  · simp only [step, hpc] at hstep
    split_ifs at hstep with hmem halive
    · cases hstep
      exact ⟨rfl, rfl, inPool_moveExitingToDead (hsized.1 hmem)⟩
    · cases hstep
      exact ⟨rfl, rfl, fun _ => Iff.rfl⟩

theorem frame_scanningActive (h : Whole size group) (hpc : group.pc = .scanningActive left)
    (hstep : step size (Process.scanStep t left) group = some group') : Frame group group' := by
  have hsized := h.sized
  simp only [Sized, hpc] at hsized
  unfold Process.scanStep at hstep
  split_ifs at hstep with hleft
  · simp only [step, hpc, if_pos hleft] at hstep
    cases hstep
    exact ⟨rfl, rfl, fun _ => Iff.rfl⟩
  · simp only [step, hpc] at hstep
    split_ifs at hstep with hmem halive
    · cases hstep
      exact ⟨rfl, rfl, inPool_moveActiveToDead (hsized.1 hmem)⟩
    · cases hstep
      exact ⟨rfl, rfl, fun _ => Iff.rfl⟩

theorem frame_readingExit (h : Whole size group) (hpc : group.pc = .readingExit t left)
    (hstep : step size .proceed group = some group') : Frame group group' := by
  have hsized := h.sized
  simp only [Sized, hpc] at hsized
  simp only [step, hpc] at hstep
  split_ifs at hstep with hexit
  · cases hstep
    exact ⟨rfl, rfl, inPool_moveActiveToExiting hsized.1⟩
  · cases hstep
    exact ⟨rfl, rfl, fun _ => Iff.rfl⟩

end ThreadGroup

namespace Process

variable {cfg : ProcessConfig} {s s' : Process} {pool : ThreadPool} {t : Nat}

/-- The threads that are not alive stand behind their loops, those that have been dropped
have ended, and those to come have not been started. -/
structure Pooled (size : UInt64) (group : ThreadGroup) (threads : Nat → ServicePc) : Prop where
  whole : group.Whole size
  alive : ∀ t, group.alive t = false → threads t = .returning ∨ threads t = .ended
  fresh : ∀ t, group.created ≤ t → threads t = .created
  dropped : ∀ t < group.created, ¬ group.InPool t → threads t = .ended

section Pooled

variable {size : UInt64} {group group' : ThreadGroup} {threads : Nat → ServicePc}

theorem pooled_start (size : UInt64) : Pooled size (.start size) fun _ => .created where
  whole := ThreadGroup.whole_start size
  alive _ h := Bool.noConfusion h
  fresh _ _ := rfl
  dropped _ ht hout := absurd (.inl (Finset.mem_range.mpr ht)) hout

theorem Pooled.lt_created (h : Pooled size group threads) (ht : threads t ≠ .created) :
    t < group.created :=
  Nat.lt_of_not_le fun hle => ht (h.fresh t hle)

theorem Pooled.move (h : Pooled size group threads) (pc : ServicePc) (ht : t < group.created)
    (hin : threads t ≠ .ended)
    (hpc : threads t = .returning → pc = .returning ∨ pc = .ended) :
    Pooled size group (Function.update threads t pc) where
  whole := h.whole
  alive u hu := by
    by_cases hut : u = t
    · subst hut
      rw [Function.update_self]
      exact hpc ((h.alive u hu).resolve_right hin)
    · rw [Function.update_of_ne hut]
      exact h.alive u hu
  fresh u hu := by
    rw [Function.update_of_ne (Nat.ne_of_gt (Nat.lt_of_lt_of_le ht hu))]
    exact h.fresh u hu
  dropped u hu hout := by
    have hut : u ≠ t := by
      rintro rfl
      exact hin (h.dropped u hu hout)
    rw [Function.update_of_ne hut]
    exact h.dropped u hu hout

theorem Pooled.setNotAlive (h : Pooled size group threads)
    (hpc : threads t = .returning)
    (hstep : ThreadGroup.step size (.setNotAlive t) group = some group') :
    Pooled size group' threads := by
  have hwhole := h.whole.step _ hstep
  simp only [ThreadGroup.step, Option.ite_none_right_eq_some] at hstep
  obtain ⟨-, hstep⟩ := hstep
  cases hstep
  refine ⟨hwhole, fun u hu => ?_, h.fresh, h.dropped⟩
  by_cases hut : u = t
  · exact .inl (hut ▸ hpc)
  · exact h.alive u ((Function.update_of_ne hut _ _).symm.trans hu)

theorem Pooled.setExit (h : Pooled size group threads)
    (hstep : ThreadGroup.step size (.setExit t) group = some group') :
    Pooled size group' threads := by
  have hwhole := h.whole.step _ hstep
  simp only [ThreadGroup.step, Option.ite_none_right_eq_some] at hstep
  obtain ⟨-, hstep⟩ := hstep
  cases hstep
  exact ⟨hwhole, h.alive, h.fresh, h.dropped⟩

theorem Pooled.call (h : Pooled size group threads) (hpc : group.pc = .idle)
    (hended : ∀ u ∈ group.deadThreads, threads u = .ended)
    (hstep : ThreadGroup.step size .call group = some group') :
    Pooled size group' threads := by
  have hwhole := h.whole.step _ hstep
  simp only [ThreadGroup.step, hpc] at hstep
  cases hstep
  refine ⟨hwhole, h.alive, h.fresh, fun u hu hout => ?_⟩
  by_cases hdead : u ∈ group.deadThreads
  · exact hended u hdead
  · refine h.dropped u hu ?_
    rintro (hin | hin | hin)
    · exact hout (.inl hin)
    · exact hout (.inr (.inl hin))
    · exact hdead hin

theorem Pooled.frame (h : Pooled size group threads) (hwhole : group'.Whole size)
    (hframe : group.Frame group') : Pooled size group' threads where
  whole := hwhole
  alive u hu := h.alive u (hframe.alive ▸ hu)
  fresh u hu := h.fresh u (hframe.created ▸ hu)
  dropped u hu hout := h.dropped u (hframe.created ▸ hu) (mt (hframe.inPool u).mpr hout)

theorem Pooled.prestart (h : Pooled size group threads) {n : Nat}
    (hpc : group.pc = .refilling (n + 1))
    (hstep : ThreadGroup.step size .proceed group = some group') :
    Pooled size group' (Function.update threads group.created .serviceLoop) := by
  have hwhole := h.whole.step _ hstep
  simp only [ThreadGroup.step, hpc] at hstep
  cases hstep
  refine ⟨hwhole, fun u hu => ?_, fun u hu => ?_, fun u hu hout => ?_⟩
  · have hne : u ≠ group.created := by
      rintro rfl
      exact Bool.noConfusion ((Function.update_self _ _ _).symm.trans hu)
    rw [Function.update_of_ne hne]
    exact h.alive u ((Function.update_of_ne hne _ _).symm.trans hu)
  · have hlt : group.created < u := hu
    rw [Function.update_of_ne (Nat.ne_of_gt hlt)]
    exact h.fresh u (Nat.le_of_lt hlt)
  · have hold : ¬ (u = group.created ∨ group.InPool u) :=
      mt (ThreadGroup.inPool_getThreadPrestart u).mpr hout
    obtain ⟨hne, hold⟩ := not_or.mp hold
    rw [Function.update_of_ne hne]
    exact h.dropped u (Nat.lt_of_le_of_ne (Nat.le_of_lt_succ hu) hne) hold

end Pooled

/-! ## A step of a thread -/

/-- What a step of a thread leaves: its own place, and of its group at most its flag. -/
structure Moved (cfg : ProcessConfig) (pool : ThreadPool) (t : Nat) (s s' : Process) : Prop where
  main : s'.main = s.main
  globalExit : s'.globalExit = s.globalExit
  ids : s'.ids = s.ids
  nextId : s'.nextId = s.nextId
  notCreated : s.threads pool t ≠ .created
  notEnded : s.threads pool t ≠ .ended
  threads : ∃ pc, pc ≠ .created ∧ s'.threads = (s.setThread pool t pc).threads ∧
    (s.threads pool t = .returning → pc = .ended) ∧
    (s'.groups = s.groups ∨ pc = .returning ∧ ∃ group,
      ThreadGroup.step (cfg.size pool) (.setNotAlive t) (s.groups pool) = some group ∧
        s'.groups = (s.setGroup pool group).groups)

theorem setThread_same {pc : ServicePc} (h : s.threads pool t = pc) :
    s.setThread pool t pc = s := by
  have hsame : Function.update s.threads pool (Function.update (s.threads pool) t pc) =
      s.threads := by
    rw [← h, Function.update_eq_self, Function.update_eq_self]
  rw [setThread, hsame]

theorem moved_of_setThread {pc : ServicePc} (hcreated : s.threads pool t ≠ .created)
    (hended : s.threads pool t ≠ .ended) (hpc : pc ≠ .created)
    (hreturning : s.threads pool t = .returning → pc = .ended) :
    Moved cfg pool t s (s.setThread pool t pc) :=
  ⟨rfl, rfl, rfl, rfl, hcreated, hended, pc, hpc, rfl, hreturning, .inl rfl⟩

theorem moved_of_threadStep {listened : Listened}
    (hstep : s.threadStep cfg pool t listened = some s') : Moved cfg pool t s s' := by
  unfold threadStep at hstep
  cases hpc : s.threads pool t with
  | created | ended => simp [hpc] at hstep
  | serviceLoop =>
    simp only [hpc] at hstep
    split_ifs at hstep <;> cases hstep <;>
      exact moved_of_setThread (by simp [hpc]) (by simp [hpc]) nofun (by simp [hpc])
  | connectListen =>
    simp only [hpc] at hstep
    cases listened <;> cases hstep <;>
      exact moved_of_setThread (by simp [hpc]) (by simp [hpc]) nofun (by simp [hpc])
  | service =>
    simp only [hpc] at hstep
    split_ifs at hstep
    · cases hstep
      exact moved_of_setThread (by simp [hpc]) (by simp [hpc]) nofun (by simp [hpc])
    · have hsame : s.setThread pool t .service = s' :=
        (setThread_same hpc).trans (by simpa using hstep)
      rw [← hsame]
      exact moved_of_setThread (by simp [hpc]) (by simp [hpc]) nofun (by simp [hpc])
  | leaving =>
    simp only [hpc, Option.map_eq_some_iff] at hstep
    obtain ⟨group, hgroup, hstep⟩ := hstep
    cases hstep
    exact ⟨rfl, rfl, rfl, rfl, by simp [hpc], by simp [hpc], .returning, nofun, rfl,
      by simp [hpc], .inr ⟨rfl, group, hgroup, rfl⟩⟩
  | returning =>
    simp only [hpc] at hstep
    cases hstep
    exact moved_of_setThread (by simp [hpc]) (by simp [hpc]) nofun fun _ => rfl

end Process

end MultiplexServer

import MultiplexServer.ProcessShutdown

/-! The readers, the datamodels and the writers until the exit flag is set. Their services
leave their loops for no other reason, so the maintenance of their pools finds nothing
to do; only a listener is ever replaced. -/

namespace MultiplexServer

namespace ThreadGroup

structure Intact (size : UInt64) (group : ThreadGroup) : Prop where
  active : group.activeThreads = .range size.toNat
  exiting : group.exitingThreads = ∅
  dead : group.deadThreads = ∅
  created : group.created = size.toNat
  alive : ∀ t, group.alive t = true
  exit : ∀ t, group.exit t = false
  refilling : ∀ n, group.pc = .refilling n → n = 0

variable {size : UInt64} {group group' : ThreadGroup}

theorem intact_start (size : UInt64) : Intact size (start size) :=
  ⟨rfl, rfl, rfl, rfl, fun _ => rfl, fun _ => rfl, nofun⟩

theorem Intact.goto (h : Intact size group) {pc : MaintenancePc}
    (hpc : ∀ n, pc = .refilling n → n = 0) : Intact size (group.goto pc) :=
  ⟨h.active, h.exiting, h.dead, h.created, h.alive, h.exit, hpc⟩

theorem Intact.scan (h : Intact size group) {pc : MaintenancePc} (hpc : ∀ n, pc ≠ .refilling n) :
    Intact size (group.goto pc) :=
  h.goto fun n hn => absurd hn (hpc n)

theorem Intact.missing (h : Intact size group) : (group.missing size).toNat = 0 := by
  have hcard : group.activeThreads.card = size.toNat := by rw [h.active, Finset.card_range]
  rw [missing_toNat hcard.le, hcard, Nat.sub_self]

theorem Intact.step (h : Intact size group) {a : GroupStep} (hflag : a.isFlag = false)
    (hstep : ThreadGroup.step size a group = some group') : Intact size group' := by
  cases hpc : group.pc with
  | idle =>
    cases a with
    | setNotAlive | setExit => cases hflag
    | scan | proceed => simp [ThreadGroup.step, hpc] at hstep
    | call =>
      simp only [ThreadGroup.step, hpc] at hstep
      cases hstep
      have hcleared : Intact size group.clearDead :=
        ⟨h.active, h.exiting, rfl, h.created, h.alive, h.exit, h.refilling⟩
      exact hcleared.scan (by simp)
  | scanningExiting left =>
    cases a with
    | setNotAlive | setExit => cases hflag
    | call => simp [ThreadGroup.step, hpc] at hstep
    | scan t =>
      simp only [ThreadGroup.step, hpc, h.alive, Bool.not_true, Bool.false_eq_true,
        if_false] at hstep
      split_ifs at hstep
      cases hstep
      exact h.scan (by simp)
    | proceed =>
      simp only [ThreadGroup.step, hpc] at hstep
      split_ifs at hstep
      cases hstep
      exact h.scan (by simp)
  | scanningActive left =>
    cases a with
    | setNotAlive | setExit => cases hflag
    | call => simp [ThreadGroup.step, hpc] at hstep
    | scan t =>
      simp only [ThreadGroup.step, hpc, h.alive, Bool.not_true, Bool.false_eq_true,
        if_false] at hstep
      split_ifs at hstep
      cases hstep
      exact h.scan (by simp)
    | proceed =>
      simp only [ThreadGroup.step, hpc] at hstep
      split_ifs at hstep
      cases hstep
      refine h.goto fun n hn => ?_
      rw [← MaintenancePc.refilling.inj hn, h.missing]
  | readingExit t left =>
    cases a with
    | setNotAlive | setExit => cases hflag
    | call | scan => simp [ThreadGroup.step, hpc] at hstep
    | proceed =>
      simp only [ThreadGroup.step, hpc, h.exit] at hstep
      cases hstep
      exact h.scan (by simp)
  | refilling n =>
    obtain rfl := h.refilling n hpc
    cases a with
    | setNotAlive | setExit => cases hflag
    | call | scan => simp [ThreadGroup.step, hpc] at hstep
    | proceed =>
      simp only [ThreadGroup.step, hpc] at hstep
      cases hstep
      exact h.scan (by simp)

end ThreadGroup

namespace Process

variable {cfg : ProcessConfig} {s s' : Process} {pool : ThreadPool} {t : Nat}

def isWorking (pool : ThreadPool) : ServicePc → Bool
  | .created | .serviceLoop | .service => true
  | .connectListen => pool = .listen
  | .leaving | .returning | .ended => false

/-- The pool is as it was started, up to how far its threads are. -/
structure Kept (cfg : ProcessConfig) (s : Process) (pool : ThreadPool) : Prop where
  intact : ThreadGroup.Intact (cfg.size pool) (s.groups pool)
  working : ∀ t, isWorking pool (s.threads pool t) = true

theorem kept_start (cfg : ProcessConfig) (pool : ThreadPool) : Kept cfg (start cfg) pool :=
  ⟨ThreadGroup.intact_start _, fun _ => rfl⟩

theorem Kept.same (h : Kept cfg s pool) (hgroup : s'.groups pool = s.groups pool)
    (hthreads : s'.threads pool = s.threads pool) : Kept cfg s' pool :=
  ⟨hgroup ▸ h.intact, hthreads ▸ h.working⟩

theorem Kept.setThread (h : Kept cfg s pool) {q : ThreadPool} {pc : ServicePc}
    (hpc : isWorking q pc = true) : Kept cfg (s.setThread q t pc) pool := by
  refine ⟨h.intact, fun u => ?_⟩
  by_cases hself : pool = q ∧ u = t
  · obtain ⟨rfl, rfl⟩ := hself
    rw [setThread_self]
    exact hpc
  · rw [setThread_other hself]
    exact h.working u

theorem Kept.threadStep (h : Kept cfg s pool) (hexit : s.globalExit = false) {q : ThreadPool}
    {listened : Listened} (hlistens : pool = .listen → listened ≠ .failed)
    (hstep : s.threadStep cfg q t listened = some s') : Kept cfg s' pool := by
  by_cases hq : q = pool
  · subst hq
    have hany : s.isExitAny q t = false := by
      rw [isExitAny, h.intact.exit, hexit]
      rfl
    have hworking := h.working t
    unfold Process.threadStep at hstep
    cases hpc : s.threads q t with
    | leaving | returning | ended => simp [hpc, isWorking] at hworking
    | created => simp [hpc] at hstep
    | serviceLoop =>
      simp only [hpc, hany, Bool.false_eq_true, if_false] at hstep
      split_ifs at hstep with hlisten
      · cases hstep
        exact h.setThread (decide_eq_true hlisten)
      · cases hstep
        exact h.setThread rfl
    | connectListen =>
      simp only [hpc] at hstep
      cases listened with
      | ok | notLocked =>
        cases hstep
        exact h.setThread rfl
      | failed =>
        simp only [hpc, isWorking, decide_eq_true_eq] at hworking
        exact absurd rfl (hlistens hworking)
    | service =>
      simp only [hpc, hany] at hstep
      cases hstep
      exact h
  · have hmoved := moved_of_threadStep hstep
    refine h.same ?_ ?_
    · exact (hmoved.groups_cases pool).resolve_right fun hgroup => hq hgroup.1.symm
    · funext u
      exact hmoved.threads_other fun heq => hq heq.1.symm

theorem Kept.mainStep (h : Kept cfg s pool) (hinv : Inv cfg s)
    (hexit : s.globalExit = false) {bound maintained : Bool}
    (hstep : s.mainStep cfg t bound maintained = some s') : Kept cfg s' pool := by
  cases hinv.changed hstep with
  | none groups threads => exact h.same (by rw [groups]) (by rw [threads])
  | started q u groups _ threads =>
    have hstarted : Kept cfg (s.setThread q u .serviceLoop) pool := h.setThread rfl
    exact hstarted.same (by rw [groups]; rfl) (by rw [threads])
  | group q a group taken flag _ groups threads =>
    by_cases hq : pool = q
    · subst hq
      have hflag : a.isFlag = false := flag.resolve_right (by rw [hexit]; exact Bool.false_ne_true)
      refine ⟨?_, threads ▸ h.working⟩
      rw [groups, setGroup_self]
      exact h.intact.step hflag taken
    · exact h.same (by rw [groups, setGroup_other hq]) (by rw [threads])
  | prestarted q n group refilling _ groups threads =>
    have hq : pool ≠ q := by
      rintro rfl
      exact absurd (h.intact.refilling _ refilling) (Nat.succ_ne_zero n)
    refine h.same (by rw [groups, setGroup_other hq]) ?_
    rw [threads]
    exact Function.update_of_ne hq _ _

theorem exit_false (hs : (machine cfg).Reachable s) {a : ProcessStep}
    (hstep : s.step cfg a = some s') (hexit' : s'.globalExit = false) : s.globalExit = false := by
  rw [Bool.eq_false_iff]
  intro hexit
  rw [(exhausts cfg).keeps s s' a hs hexit hstep] at hexit'
  cases hexit'

theorem kept_of_reachable (h : (machine cfg).Reachable s) (hpool : pool ≠ .listen) :
    s.globalExit = false → Kept cfg s pool := by
  refine Machine.Reachable.invariant (I := fun s => s.globalExit = false → Kept cfg s pool)
    (fun _ => kept_start cfg pool) ?_ h
  intro s s' a hs hkept hstep hexit'
  have hexit := exit_false hs hstep hexit'
  cases a with
  | signal =>
    cases hstep
    cases hexit'
  | thread q t listened =>
    exact (hkept hexit).threadStep hexit (fun hlisten => absurd hlisten hpool) hstep
  | main t bound maintained => exact (hkept hexit).mainStep (inv_of_reachable hs) hexit hstep

/-- As long as the exit flag is not set, the pools of the readers, the datamodels and the
writers have the threads with which they were made, and none of these has left its loop. -/
theorem workers_kept (h : (machine cfg).Reachable s) (hexit : s.globalExit = false)
    (hpool : pool ≠ .listen) :
    (s.groups pool).activeThreads = .range (cfg.size pool).toNat ∧
    (s.groups pool).created = (cfg.size pool).toNat ∧
    ∀ t, s.threads pool t = .created ∨ s.threads pool t = .serviceLoop ∨
      s.threads pool t = .service := by
  have hkept := kept_of_reachable h hpool hexit
  refine ⟨hkept.intact.active, hkept.intact.created, fun t => ?_⟩
  have hworking := hkept.working t
  cases hpc : s.threads pool t with
  | created => exact .inl rfl
  | serviceLoop => exact .inr (.inl rfl)
  | service => exact .inr (.inr rfl)
  | connectListen | leaving | returning | ended => simp [hpc, isWorking, hpool] at hworking

theorem workers_kept_replaced :
    ∃ s, (machine single).run replaced (start single) = some s ∧
      (s.groups .listen).created = 2 ∧ (s.groups .reader).created = 1 ∧
      (s.groups .reader).activeThreads = .range 1 := by
  have hrun : ((machine single).run replaced (start single)).map
      (fun s => (s.globalExit, (s.groups .listen).created)) = some (false, 2) := by
    decide +kernel
  obtain ⟨s, hs, hstate⟩ := Option.map_eq_some_iff.mp hrun
  obtain ⟨hexit, hlisten⟩ := Prod.mk.inj hstate
  obtain ⟨hactive, hcreated, -⟩ := @workers_kept single s .reader
    (Machine.reachable_of_run hs) hexit (by decide)
  exact ⟨s, hs, hlisten, hcreated, hactive⟩

end Process

end MultiplexServer

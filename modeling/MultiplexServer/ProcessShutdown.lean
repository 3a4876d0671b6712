import Mathlib.Algebra.BigOperators.Group.Finset.Basic
import MultiplexServer.Library.Progress
import MultiplexServer.ProcessThreads

/-! The end of the process. Once the exit flag is set each step of `main` or of a thread
lowers a load, in whatever order they take their steps, and as long as `main` has not
returned one of them can take a step. So the process ends, and with `main` all threads. -/

namespace MultiplexServer

def ProcessStep.isSignal : ProcessStep → Bool
  | .signal => true
  | .thread _ _ _ | .main _ _ _ => false

namespace Process

variable {cfg : ProcessConfig} {s s' : Process} {pool : ThreadPool} {t : Nat}

/-- The steps that a thread may still take, where that of `main` which starts it counts for
more than the thread's own. -/
def placeLoad : ServicePc → Nat
  | .created => 6
  | .connectListen => 5
  | .service => 4
  | .serviceLoop => 3
  | .leaving => 2
  | .returning => 1
  | .ended => 0

def poolLoad (s : Process) (pool : ThreadPool) : Nat :=
  ∑ t ∈ Finset.range (s.groups pool).created, placeLoad (s.threads pool t)

def threadsLoad (s : Process) : Nat :=
  s.poolLoad .listen + s.poolLoad .reader + s.poolLoad .datamodel + s.poolLoad .writer

def stopLoad (cfg : ProcessConfig) : Nat := GroupThread.exitLimit cfg.waitServiceExit + 3

def poolStopLoad (cfg : ProcessConfig) (pool : ThreadPool) : Nat :=
  (cfg.size pool).toNat * stopLoad cfg + 1

def afterStop (cfg : ProcessConfig) : ThreadPool → Nat
  | .writer => 5
  | .datamodel => poolStopLoad cfg .writer + 5
  | .reader => poolStopLoad cfg .datamodel + (poolStopLoad cfg .writer + 5)
  | .listen =>
    poolStopLoad cfg .reader + (poolStopLoad cfg .datamodel + (poolStopLoad cfg .writer + 5))

def loopLoad (cfg : ProcessConfig) : Nat := poolStopLoad cfg .listen + afterStop cfg .listen + 1

/-- The steps of a call of `do_thread_group_maintenance` on a pool of `n` threads; making a
thread counts for the steps of the thread as well. -/
def groupLoad (n : Nat) (group : ThreadGroup) : Nat :=
  match group.pc with
  | .idle => group.exitingThreads.card + 6 * n + 4
  | .scanningExiting left => left.card + 6 * n + 3
  | .scanningActive left => 2 * left.card + 4 * n + 2
  | .readingExit _ left => 2 * left.card + 4 * n + 3
  | .refilling missing => 4 * missing + 1

def mainLoad (cfg : ProcessConfig) (s : Process) : Nat :=
  match s.main with
  | .constructing => loopLoad cfg + 10
  | .starting pool _ => loopLoad cfg + 9 - pool.place
  | .looping => loopLoad cfg
  | .maintaining _ | .maintainingPipeline => loopLoad cfg + 1
  | .entering _ => loopLoad cfg + 2
  | .inGroup pool => groupLoad (cfg.size pool).toNat (s.groups pool) + (loopLoad cfg + 1)
  | .stopping pool left _ => left.card * stopLoad cfg + 1 + afterStop cfg pool
  | .polling pool _ limit left _ => limit + 2 + left.card * stopLoad cfg + afterStop cfg pool
  | .destroying pool _ => 4 - pool.destroyedPlace
  | .returned _ => 0

def load (cfg : ProcessConfig) (s : Process) : Nat := mainLoad cfg s + threadsLoad s

/-! ## The load of the threads -/

theorem poolLoad_congr (hcreated : (s'.groups pool).created = (s.groups pool).created)
    (hthreads : s'.threads pool = s.threads pool) : s'.poolLoad pool = s.poolLoad pool := by
  unfold poolLoad
  rw [hcreated, hthreads]

theorem threadsLoad_congr (hcreated : ∀ q, (s'.groups q).created = (s.groups q).created)
    (hthreads : s'.threads = s.threads) : s'.threadsLoad = s.threadsLoad := by
  have hpool : ∀ q, s'.poolLoad q = s.poolLoad q :=
    fun q => poolLoad_congr (hcreated q) (by rw [hthreads])
  simp only [threadsLoad, hpool]

theorem threadsLoad_change (hother : ∀ q, q ≠ pool → s'.poolLoad q = s.poolLoad q) :
    s'.threadsLoad + s.poolLoad pool = s.threadsLoad + s'.poolLoad pool := by
  have hlisten := hother .listen
  have hreader := hother .reader
  have hdatamodel := hother .datamodel
  have hwriter := hother .writer
  unfold threadsLoad
  cases pool <;> simp at hlisten hreader hdatamodel hwriter <;> omega

theorem threadsLoad_move {pc : ServicePc} (ht : t < (s.groups pool).created)
    (hcreated : ∀ q, (s'.groups q).created = (s.groups q).created)
    (hthreads : s'.threads = (s.setThread pool t pc).threads) :
    s'.threadsLoad + placeLoad (s.threads pool t) = s.threadsLoad + placeLoad pc := by
  have hother : ∀ q, q ≠ pool → s'.poolLoad q = s.poolLoad q := fun q hq =>
    poolLoad_congr (hcreated q) (by rw [hthreads]; exact Function.update_of_ne hq _ _)
  have hchange := threadsLoad_change hother
  have hself : s'.threads pool = Function.update (s.threads pool) t pc := by
    rw [hthreads]
    exact Function.update_self _ _ _
  have hmem : t ∈ Finset.range (s.groups pool).created := Finset.mem_range.mpr ht
  have hpool : s'.poolLoad pool + placeLoad (s.threads pool t) =
      s.poolLoad pool + placeLoad pc := by
    unfold poolLoad
    rw [hcreated, hself, ← Finset.add_sum_erase _ _ hmem, ← Finset.add_sum_erase _ _ hmem,
      Function.update_self]
    have hrest : ∀ u ∈ (Finset.range (s.groups pool).created).erase t,
        placeLoad (Function.update (s.threads pool) t pc u) = placeLoad (s.threads pool u) :=
      fun u hu => by rw [Function.update_of_ne (Finset.ne_of_mem_erase hu)]
    rw [Finset.sum_congr rfl hrest]
    omega
  omega

theorem threadsLoad_prestart {n : Nat} {group : ThreadGroup}
    (hpc : (s.groups pool).pc = .refilling (n + 1))
    (hgroup : ThreadGroup.step (cfg.size pool) .proceed (s.groups pool) = some group)
    (hgroups : s'.groups = (s.setGroup pool group).groups)
    (hthreads : s'.threads = (s.setThread pool (s.groups pool).created .serviceLoop).threads) :
    s'.threadsLoad = s.threadsLoad + 3 := by
  have hother : ∀ q, q ≠ pool → s'.poolLoad q = s.poolLoad q := by
    intro q hq
    refine poolLoad_congr ?_ ?_
    · rw [hgroups, setGroup_other hq]
    · rw [hthreads]
      exact Function.update_of_ne hq _ _
  have hchange := threadsLoad_change hother
  have hself : s'.threads pool =
      Function.update (s.threads pool) (s.groups pool).created .serviceLoop := by
    rw [hthreads]
    exact Function.update_self _ _ _
  have hcreated : (s'.groups pool).created = (s.groups pool).created + 1 := by
    simp only [ThreadGroup.step, hpc, Option.some.injEq] at hgroup
    rw [hgroups, setGroup_self, ← hgroup]
    rfl
  have hpool : s'.poolLoad pool = s.poolLoad pool + 3 := by
    unfold poolLoad
    rw [hcreated, hself, Finset.sum_range_succ, Function.update_self]
    have hrest : ∀ u ∈ Finset.range (s.groups pool).created,
        placeLoad (Function.update (s.threads pool) (s.groups pool).created .serviceLoop u) =
          placeLoad (s.threads pool u) :=
      fun u hu => by rw [Function.update_of_ne (Nat.ne_of_lt (Finset.mem_range.mp hu))]
    rw [Finset.sum_congr rfl hrest]
    rfl
  omega

/-! ## The maintenance of a pool -/

section GroupLoad

variable {size : UInt64} {group group' : ThreadGroup} {left : Finset Nat}

theorem groupLoad_call (hpc : group.pc = .idle)
    (hstep : ThreadGroup.step size .call group = some group') (n : Nat) :
    groupLoad n group' < groupLoad n group := by
  simp only [ThreadGroup.step, hpc, Option.some.injEq] at hstep
  rw [← hstep]
  simp only [groupLoad, hpc, ThreadGroup.goto]
  omega

theorem groupLoad_scanningExiting (h : group.Whole size) (hpc : group.pc = .scanningExiting left)
    (hstep : ThreadGroup.step size (scanStep t left) group = some group') :
    groupLoad size.toNat group' < groupLoad size.toNat group := by
  have hcard := h.card_le
  unfold scanStep at hstep
  split_ifs at hstep with hleft
  · simp only [ThreadGroup.step, hpc, if_pos hleft, Option.some.injEq] at hstep
    rw [← hstep]
    simp only [groupLoad, hpc, ThreadGroup.goto]
    omega
  · simp only [ThreadGroup.step, hpc] at hstep
    split_ifs at hstep with hmem halive
    · have herase := Finset.card_erase_lt_of_mem hmem
      cases hstep
      simp only [groupLoad, hpc, ThreadGroup.goto]
      omega
    · have herase := Finset.card_erase_lt_of_mem hmem
      cases hstep
      simp only [groupLoad, hpc, ThreadGroup.goto]
      omega

theorem groupLoad_scanningActive (h : group.Whole size) (hpc : group.pc = .scanningActive left)
    (hstep : ThreadGroup.step size (scanStep t left) group = some group') :
    groupLoad size.toNat group' < groupLoad size.toNat group := by
  have hcard := h.card_le
  unfold scanStep at hstep
  split_ifs at hstep with hleft
  · simp only [ThreadGroup.step, hpc, if_pos hleft, Option.some.injEq] at hstep
    have hmissing := ThreadGroup.missing_toNat hcard
    rw [← hstep]
    simp only [groupLoad, hpc, ThreadGroup.goto]
    omega
  · simp only [ThreadGroup.step, hpc] at hstep
    split_ifs at hstep with hmem halive
    · have herase := Finset.card_erase_lt_of_mem hmem
      cases hstep
      simp only [groupLoad, hpc, ThreadGroup.goto]
      omega
    · have herase := Finset.card_erase_lt_of_mem hmem
      cases hstep
      simp only [groupLoad, hpc, ThreadGroup.goto]
      omega

theorem groupLoad_readingExit (hpc : group.pc = .readingExit t left)
    (hstep : ThreadGroup.step size .proceed group = some group') (n : Nat) :
    groupLoad n group' < groupLoad n group := by
  simp only [ThreadGroup.step, hpc] at hstep
  split_ifs at hstep <;> cases hstep <;> simp only [groupLoad, hpc, ThreadGroup.goto] <;> omega

end GroupLoad

theorem load_setGroup {group : ThreadGroup} (hmain : s.main = .inGroup pool)
    (hcreated : group.created = (s.groups pool).created)
    (hlower : groupLoad (cfg.size pool).toNat group <
      groupLoad (cfg.size pool).toNat (s.groups pool)) :
    (s.setGroup pool group).load cfg < s.load cfg := by
  have hthreads : (s.setGroup pool group).threadsLoad = s.threadsLoad :=
    threadsLoad_congr (created_setGroup hcreated rfl) rfl
  rw [load, load, hthreads]
  simp only [mainLoad, setGroup_main, hmain, setGroup_self]
  omega

theorem mainLoad_maintainedPool : (s.maintainedPool pool).mainLoad cfg = loopLoad cfg + 1 := by
  unfold maintainedPool
  cases pool.next <;> rfl

theorem Inv.groupStep_lowers (h : Inv cfg s) (hmain : s.main = .inGroup pool) {bound : Bool}
    (hstep : s.groupStep cfg pool t bound = some s') : s'.load cfg < s.load cfg := by
  have hwhole := (h.pools pool).whole
  unfold Process.groupStep at hstep
  cases hpc : (s.groups pool).pc with
  | idle =>
    simp only [hpc, Option.ite_none_right_eq_some, Option.map_eq_some_iff] at hstep
    obtain ⟨-, group, hgroup, rfl⟩ := hstep
    have hcreated : group.created = (s.groups pool).created := by
      simp only [ThreadGroup.step, hpc, Option.some.injEq] at hgroup
      rw [← hgroup]
      rfl
    exact load_setGroup hmain hcreated (groupLoad_call hpc hgroup _)
  | scanningExiting left =>
    simp only [hpc, Option.map_eq_some_iff] at hstep
    obtain ⟨group, hgroup, rfl⟩ := hstep
    exact load_setGroup hmain (ThreadGroup.frame_scanningExiting hwhole hpc hgroup).created
      (groupLoad_scanningExiting hwhole hpc hgroup)
  | scanningActive left =>
    simp only [hpc, Option.map_eq_some_iff] at hstep
    obtain ⟨group, hgroup, rfl⟩ := hstep
    exact load_setGroup hmain (ThreadGroup.frame_scanningActive hwhole hpc hgroup).created
      (groupLoad_scanningActive hwhole hpc hgroup)
  | readingExit u left =>
    simp only [hpc, Option.map_eq_some_iff] at hstep
    obtain ⟨group, hgroup, rfl⟩ := hstep
    exact load_setGroup hmain (ThreadGroup.frame_readingExit hwhole hpc hgroup).created
      (groupLoad_readingExit hpc hgroup _)
  | refilling n =>
    cases n with
    | zero =>
      simp only [hpc, Option.map_eq_some_iff] at hstep
      obtain ⟨group, hgroup, rfl⟩ := hstep
      have hcreated : group.created = (s.groups pool).created := by
        simp only [ThreadGroup.step, hpc, Option.some.injEq] at hgroup
        rw [← hgroup]
        rfl
      have hthreads : ((s.setGroup pool group).maintainedPool pool).threadsLoad =
          s.threadsLoad := by
        unfold Process.maintainedPool
        cases pool.next <;> exact threadsLoad_congr (created_setGroup hcreated rfl) rfl
      rw [load, load, hthreads, mainLoad_maintainedPool]
      simp only [mainLoad, hmain, groupLoad, hpc]
      omega
    | succ n =>
      simp only [hpc, Option.map_eq_some_iff] at hstep
      obtain ⟨group, hgroup, rfl⟩ := hstep
      have hthreads : ((s.setGroup pool group).prestart cfg pool (s.groups pool).created
          bound).threadsLoad = s.threadsLoad + 3 :=
        threadsLoad_prestart hpc hgroup (construct_groups bound) (construct_threads bound)
      have hnext : group.pc = .refilling n := by
        simp only [ThreadGroup.step, hpc, Option.some.injEq] at hgroup
        rw [← hgroup]
        rfl
      rw [load, load, hthreads]
      simp only [mainLoad, Process.prestart, construct_main, construct_groups, setThread_main,
        setThread_groups, setGroup_main, hmain, setGroup_self, groupLoad, hpc, hnext]
      omega

/-! ## `main` -/

theorem afterStop_next {q : ThreadPool} (h : pool.next = some q) :
    afterStop cfg pool = poolStopLoad cfg q + afterStop cfg q := by
  cases pool <;> cases h <;> rfl

theorem afterStop_last (h : pool.next = none) : afterStop cfg pool = 5 := by
  cases pool with
  | listen | reader | datamodel => cases h
  | writer => rfl

theorem five_le_afterStop (pool : ThreadPool) : 5 ≤ afterStop cfg pool := by
  cases pool <;> simp only [afterStop] <;> omega

theorem Inv.mainLoad_stopPool (h : Inv cfg s) {result : Bool} :
    (s.stopPool pool result).mainLoad cfg ≤ poolStopLoad cfg pool + afterStop cfg pool := by
  have hcard := Nat.mul_le_mul_right (stopLoad cfg) (h.pools pool).whole.card_le
  change (s.groups pool).activeThreads.card * stopLoad cfg + 1 + afterStop cfg pool ≤ _
  unfold poolStopLoad
  omega

theorem mainLoad_startPool :
    (s.startPool cfg pool).mainLoad cfg ≤ loopLoad cfg + 9 - pool.place := by
  unfold startPool
  split_ifs
  · have hafter := @five_le_afterStop cfg .listen
    change 4 ≤ _
    unfold loopLoad
    cases pool <;> simp only [ThreadPool.place] <;> omega
  · exact Nat.le_refl _

theorem threadsLoad_startPool : (s.startPool cfg pool).threadsLoad = s.threadsLoad := by
  unfold startPool
  split_ifs <;> rfl

theorem load_goto {pc : MainPc} (hlower : (s.goto pc).mainLoad cfg < s.mainLoad cfg) :
    (s.goto pc).load cfg < s.load cfg :=
  Nat.add_lt_add_right hlower s.threadsLoad

theorem Inv.mainStep_lowers (h : Inv cfg s) (hexit : s.globalExit = true)
    {bound maintained : Bool} (hstep : s.mainStep cfg t bound maintained = some s') :
    s'.load cfg < s.load cfg := by
  unfold Process.mainStep at hstep
  cases hmain : s.main with
  | constructing =>
    simp only [hmain, Option.some.injEq] at hstep
    subst hstep
    have hthreads : (s.construct cfg .listen bound).threadsLoad = s.threadsLoad :=
      threadsLoad_congr (fun q => by rw [construct_groups]) (construct_threads bound)
    have hle := @mainLoad_startPool cfg (s.construct cfg .listen bound) .listen
    rw [load, load, threadsLoad_startPool, hthreads]
    simp only [mainLoad, hmain, ThreadPool.place] at hle ⊢
    omega
  | starting pool left =>
    simp only [hmain] at hstep
    have hplace : pool.place ≤ 3 := @ThreadPool.place_le .writer rfl pool
    split_ifs at hstep with ht hcreated hleft
    · cases hstep
      have hat := h.place
      simp only [At, hmain] at hat
      have hmove : ((s.setThread pool t .serviceLoop).goto
          (.starting pool (left.erase t))).threadsLoad + placeLoad (s.threads pool t) =
            s.threadsLoad + placeLoad .serviceLoop :=
        threadsLoad_move (h.active_lt (hat.1 ht)) (fun _ => rfl) rfl
      rw [hcreated] at hmove
      simp only [load, mainLoad, goto_main, hmain, placeLoad] at hmove ⊢
      omega
    · cases hstep
      have hafter := @five_le_afterStop cfg .listen
      have hthreads : (s.startFailed cfg).threadsLoad = s.threadsLoad := rfl
      rw [load, load, hthreads]
      simp only [mainLoad, hmain, startFailed, ThreadPool.destroyedPlace, loopLoad]
      omega
    · cases hnext : pool.next with
      | some q =>
        simp only [hnext, Option.some.injEq] at hstep
        subst hstep
        have hle := @mainLoad_startPool cfg s q
        have hq := ThreadPool.place_next hnext
        rw [load, load, threadsLoad_startPool]
        simp only [mainLoad, hmain] at hle ⊢
        omega
      | none =>
        simp only [hnext, Option.some.injEq] at hstep
        subst hstep
        refine load_goto ?_
        simp only [mainLoad, hmain, goto_main]
        omega
  | looping =>
    simp only [hmain, hexit, if_true, Option.some.injEq] at hstep
    subst hstep
    have hle := @Inv.mainLoad_stopPool cfg s .listen h true
    refine load_goto (hle.trans_lt ?_)
    simp only [mainLoad, hmain, loopLoad]
    omega
  | maintaining pool =>
    simp only [hmain, hexit, if_true, Option.some.injEq] at hstep
    subst hstep
    refine load_goto ?_
    simp only [mainLoad, hmain, goto_main]
    omega
  | entering pool =>
    simp only [hmain, hexit, if_true, Option.some.injEq] at hstep
    subst hstep
    have hthreads : (s.maintainedPool pool).threadsLoad = s.threadsLoad := by
      unfold Process.maintainedPool
      cases pool.next <;> rfl
    rw [load, load, hthreads, mainLoad_maintainedPool]
    simp only [mainLoad, hmain]
    omega
  | inGroup pool =>
    simp only [hmain] at hstep
    exact h.groupStep_lowers hmain hstep
  | maintainingPipeline =>
    simp only [hmain, hexit, if_true, Option.some.injEq] at hstep
    subst hstep
    refine load_goto ?_
    simp only [mainLoad, hmain, goto_main]
    omega
  | stopping pool left result =>
    simp only [hmain] at hstep
    by_cases ht : t ∈ left
    · rw [if_pos ht] at hstep
      obtain ⟨group, hgroup, rfl⟩ := Option.map_eq_some_iff.mp hstep
      have hcreated : group.created = (s.groups pool).created := by rw [step_setExit hgroup]
      have hcard : left.card * stopLoad cfg =
          (left.erase t).card * stopLoad cfg + stopLoad cfg := by
        rw [← Finset.card_erase_add_one ht, Nat.succ_mul]
      have hthreads : ((s.setGroup pool group).goto (.polling pool t
          (GroupThread.exitLimit cfg.waitServiceExit) (left.erase t) result)).threadsLoad =
            s.threadsLoad := threadsLoad_congr (created_setGroup hcreated rfl) rfl
      rw [load, load, hthreads]
      simp only [mainLoad, hmain, goto_main, hcard]
      have hstop : stopLoad cfg = GroupThread.exitLimit cfg.waitServiceExit + 3 := rfl
      omega
    · rw [if_neg ht, Option.ite_none_right_eq_some] at hstep
      obtain ⟨rfl, hstep⟩ := hstep
      cases hpool : pool.next with
      | some q =>
        simp only [hpool, Option.some.injEq] at hstep
        subst hstep
        have hle := @Inv.mainLoad_stopPool cfg s q h result
        refine load_goto (hle.trans_lt ?_)
        simp only [mainLoad, hmain, Finset.card_empty, afterStop_next hpool]
        omega
      | none =>
        simp only [hpool, Option.some.injEq] at hstep
        subst hstep
        refine load_goto ?_
        simp only [mainLoad, hmain, goto_main, ThreadPool.destroyedPlace, afterStop_last hpool]
        omega
  | polling pool u limit left result =>
    simp only [hmain] at hstep
    split_ifs at hstep with halive
    · cases hstep
      refine load_goto ?_
      simp only [mainLoad, hmain, goto_main]
      omega
    · cases limit with
      | zero =>
        cases hstep
        refine load_goto ?_
        simp only [mainLoad, hmain, goto_main, Finset.card_empty]
        omega
      | succ limit =>
        cases hstep
        refine load_goto ?_
        simp only [mainLoad, hmain, goto_main]
        omega
  | destroying pool code =>
    simp only [hmain, Option.ite_none_right_eq_some] at hstep
    obtain ⟨-, hstep⟩ := hstep
    have hplace : pool.destroyedPlace ≤ 3 := @ThreadPool.destroyedPlace_le .listen rfl pool
    cases hpool : pool.destroyedNext with
    | some q =>
      simp only [hpool, Option.some.injEq] at hstep
      subst hstep
      have hq := ThreadPool.destroyedPlace_next hpool
      refine load_goto ?_
      simp only [mainLoad, hmain, goto_main]
      omega
    | none =>
      simp only [hpool, Option.some.injEq] at hstep
      subst hstep
      refine load_goto ?_
      simp only [mainLoad, hmain, goto_main]
      omega
  | returned code => simp [hmain] at hstep

/-! ## Threads -/

theorem placeLoad_lt {listened : Listened} (hexit : s.globalExit = true)
    (hstep : s.threadStep cfg pool t listened = some s') :
    placeLoad (s'.threads pool t) < placeLoad (s.threads pool t) := by
  have hany : s.isExitAny pool t = true := by rw [isExitAny, hexit, Bool.or_true]
  unfold threadStep at hstep
  cases hpc : s.threads pool t with
  | created | ended => simp [hpc] at hstep
  | serviceLoop =>
    simp only [hpc, hany, if_true, Option.some.injEq] at hstep
    rw [← hstep, setThread_self]
    decide
  | connectListen =>
    simp only [hpc] at hstep
    cases listened <;> cases hstep <;> rw [setThread_self] <;> decide
  | service =>
    simp only [hpc, hany, if_true, Option.some.injEq] at hstep
    rw [← hstep, setThread_self]
    decide
  | leaving =>
    simp only [hpc, Option.map_eq_some_iff] at hstep
    obtain ⟨group, -, rfl⟩ := hstep
    rw [setThread_self]
    decide
  | returning =>
    simp only [hpc, Option.some.injEq] at hstep
    rw [← hstep, setThread_self]
    decide

theorem Moved.mainLoad (h : Moved cfg pool t s s') : s'.mainLoad cfg = s.mainLoad cfg := by
  have hgroup : ∀ q n, groupLoad n (s'.groups q) = groupLoad n (s.groups q) := by
    intro q n
    obtain hsame | ⟨rfl, hgroup⟩ := h.groups_cases q
    · rw [hsame]
    · rw [step_setNotAlive hgroup]
      rfl
  unfold Process.mainLoad
  rw [h.main]
  simp only [hgroup]

theorem Inv.threadStep_lowers (h : Inv cfg s) (hexit : s.globalExit = true) {listened : Listened}
    (hstep : s.threadStep cfg pool t listened = some s') : s'.load cfg < s.load cfg := by
  have hmoved := moved_of_threadStep hstep
  have hlt := placeLoad_lt hexit hstep
  obtain ⟨pc, -, hthreads, -⟩ := hmoved.threads
  have hself : s'.threads pool t = pc := by rw [hthreads, setThread_self]
  have hmove := threadsLoad_move ((h.pools pool).lt_created hmoved.notCreated) hmoved.created
    hthreads
  rw [load, load, hmoved.mainLoad]
  rw [hself] at hlt
  omega

/-! ## The exit flag stays -/

theorem exhausts (cfg : ProcessConfig) :
    (machine cfg).Exhausts (fun a => !a.isSignal) (fun s => s.globalExit = true)
      (load cfg) where
  keeps s s' a hs hexit hstep := by
    cases a with
    | signal =>
      cases hstep
      rfl
    | thread pool t listened => exact (moved_of_threadStep hstep).globalExit.trans hexit
    | main t bound maintained => exact (leads_of_mainStep hstep).2 hexit
  lowers s s' a hs hexit hmarked hstep := by
    cases a with
    | signal => cases hmarked
    | thread pool t listened => exact (inv_of_reachable hs).threadStep_lowers hexit hstep
    | main t bound maintained => exact (inv_of_reachable hs).mainStep_lowers hexit hstep
  others s s' a hs _ hmarked hstep := by
    cases a with
    | signal =>
      cases hstep
      exact Nat.le_refl _
    | thread pool t listened => cases hmarked
    | main t bound maintained => cases hmarked

/-! ## Somebody can go on -/

theorem Inv.thread_enabled (h : Inv cfg s) (hjoined : ¬ s.isJoined pool t) :
    ∃ s', s.threadStep cfg pool t .ok = some s' := by
  obtain ⟨hended, hcreated⟩ := not_or.mp hjoined
  unfold threadStep
  cases hpc : s.threads pool t with
  | created => exact absurd hpc hcreated
  | ended => exact absurd hpc hended
  | serviceLoop =>
    simp only
    split_ifs <;> exact ⟨_, rfl⟩
  | connectListen => exact ⟨_, rfl⟩
  | service =>
    simp only
    split_ifs <;> exact ⟨_, rfl⟩
  | leaving =>
    have hlt := (h.pools pool).lt_created hcreated
    simp only [ThreadGroup.step, if_pos hlt]
    exact ⟨_, rfl⟩
  | returning => exact ⟨_, rfl⟩

theorem scanStep_enabled {size : UInt64} {group : ThreadGroup} {left : Finset Nat}
    (hpc : group.pc = .scanningExiting left ∨ group.pc = .scanningActive left) :
    ∃ t group', ThreadGroup.step size (scanStep t left) group = some group' := by
  rcases left.eq_empty_or_nonempty with rfl | ⟨t, ht⟩
  · refine ⟨0, ?_⟩
    rcases hpc with hpc | hpc <;> simp [scanStep, ThreadGroup.step, hpc]
  · refine ⟨t, ?_⟩
    have hne : left ≠ ∅ := Finset.ne_empty_of_mem ht
    rw [scanStep, if_neg hne]
    rcases hpc with hpc | hpc <;> simp only [ThreadGroup.step, hpc, ht, not_true, if_false] <;>
      split_ifs <;> exact ⟨_, rfl⟩

theorem Inv.groupStep_enabled (h : Inv cfg s) (pool : ThreadPool) :
    (∃ t s', s.groupStep cfg pool t true = some s') ∨ ∃ t, ¬ s.isJoined pool t := by
  unfold Process.groupStep
  cases hpc : (s.groups pool).pc with
  | idle =>
    simp only
    by_cases hended : ∀ u ∈ (s.groups pool).deadThreads, s.threads pool u = .ended
    · refine .inl ⟨0, ?_⟩
      simp only [if_pos hended, ThreadGroup.step, hpc]
      exact ⟨_, rfl⟩
    · push Not at hended
      obtain ⟨u, hu, hnot⟩ := hended
      have halive := ((h.pools pool).whole.kept.dead u hu).1
      have hreturning := ((h.pools pool).alive u halive).resolve_right hnot
      exact .inr ⟨u, by simp [isJoined, hreturning]⟩
  | scanningExiting left =>
    obtain ⟨t, group, hgroup⟩ := @scanStep_enabled (cfg.size pool) _ _ (.inl hpc)
    refine .inl ⟨t, ?_⟩
    simp only [hpc, hgroup]
    exact ⟨_, rfl⟩
  | scanningActive left =>
    obtain ⟨t, group, hgroup⟩ := @scanStep_enabled (cfg.size pool) _ _ (.inr hpc)
    refine .inl ⟨t, ?_⟩
    simp only [hpc, hgroup]
    exact ⟨_, rfl⟩
  | readingExit u left =>
    refine .inl ⟨0, ?_⟩
    simp only [ThreadGroup.step, hpc]
    split_ifs <;> exact ⟨_, rfl⟩
  | refilling n =>
    refine .inl ⟨0, ?_⟩
    cases n <;> simp only [ThreadGroup.step, hpc] <;> exact ⟨_, rfl⟩

theorem Inv.mainStep_enabled (h : Inv cfg s) (hmain : ∀ code, s.main ≠ .returned code) :
    (∃ t s', s.mainStep cfg t true true = some s') ∨ ∃ pool t, ¬ s.isJoined pool t := by
  have hat := h.place
  unfold Process.mainStep
  cases hpc : s.main with
  | constructing => exact .inl ⟨0, _, rfl⟩
  | starting pool left =>
    rcases left.eq_empty_or_nonempty with rfl | ⟨t, ht⟩
    · refine .inl ⟨0, ?_⟩
      cases hnext : pool.next <;> simp [hnext]
    · refine .inl ⟨t, ?_⟩
      simp only [if_pos ht]
      split_ifs <;> exact ⟨_, rfl⟩
  | looping | maintaining pool | entering pool =>
    refine .inl ⟨0, ?_⟩
    simp only
    split_ifs <;> exact ⟨_, rfl⟩
  | inGroup pool =>
    exact (h.groupStep_enabled pool).imp_right fun ⟨t, ht⟩ => ⟨pool, t, ht⟩
  | maintainingPipeline =>
    refine .inl ⟨0, ?_⟩
    simp only [if_true]
    split_ifs <;> exact ⟨_, rfl⟩
  | stopping pool left result =>
    simp only [At, hpc] at hat
    rcases left.eq_empty_or_nonempty with rfl | ⟨t, ht⟩
    · refine .inl ⟨0, ?_⟩
      cases hnext : pool.next <;> simp [hnext]
    · have hlt := h.active_lt (hat.2.1 ht)
      refine .inl ⟨t, ?_⟩
      simp only [if_pos ht, ThreadGroup.step, if_pos hlt]
      exact ⟨_, rfl⟩
  | polling pool u limit left result =>
    refine .inl ⟨0, ?_⟩
    simp only
    split_ifs
    · exact ⟨_, rfl⟩
    · cases limit <;> exact ⟨_, rfl⟩
  | destroying pool code =>
    by_cases hjoined : ∀ u ∈ members (s.groups pool), s.isJoined pool u
    · refine .inl ⟨0, ?_⟩
      simp only [if_pos hjoined]
      cases hnext : pool.destroyedNext <;> exact ⟨_, rfl⟩
    · push Not at hjoined
      obtain ⟨u, -, hnot⟩ := hjoined
      exact .inr ⟨pool, u, hnot⟩
  | returned code => exact absurd hpc (hmain code)

theorem Inv.enabled (h : Inv cfg s) (hmain : ∀ code, s.main ≠ .returned code) :
    ∃ a s', a.isSignal = false ∧ s.step cfg a = some s' := by
  obtain ⟨t, s', hstep⟩ | ⟨pool, t, hjoined⟩ := h.mainStep_enabled hmain
  · exact ⟨.main t true true, s', rfl, hstep⟩
  · obtain ⟨s', hstep⟩ := h.thread_enabled hjoined
    exact ⟨.thread pool t .ok, s', rfl, hstep⟩

theorem Inv.at_rest_iff (h : Inv cfg s) :
    (∀ a, a.isSignal = false → s.step cfg a = none) ↔ ∃ code, s.main = .returned code := by
  constructor
  · intro hrest
    by_contra hmain
    push Not at hmain
    obtain ⟨a, s', ha, hstep⟩ := h.enabled hmain
    rw [hrest a ha] at hstep
    cases hstep
  · rintro ⟨code, hmain⟩ a ha
    have hat := h.place
    simp only [At, hmain] at hat
    cases a with
    | signal => cases ha
    | thread pool t listened =>
      obtain hended | hcreated := hat.2 pool t
      · simp [Process.step, threadStep, hended]
      · simp [Process.step, threadStep, hcreated]
    | main t bound maintained => simp [Process.step, Process.mainStep, hmain]

/-! ## The process -/

/-- Once the exit flag is set the process ends, whoever takes the steps: there are only so
many of them but for signals, and there is one left as long as `main` has not returned. Then
no thread runs any more. -/
theorem shutdown_completes (h : (machine cfg).Reachable s) (hexit : s.globalExit = true)
    {labels : List ProcessStep} (hrun : (machine cfg).run labels s = some s') :
    labels.countP (fun a => !a.isSignal) ≤ s.load cfg ∧
    ((∀ a, a.isSignal = false → (machine cfg).step a s' = none) ↔
      ∃ code, s'.main = .returned code) ∧
    ∀ code, s'.main = .returned code → ∀ pool t, s'.isJoined pool t := by
  have hinv := inv_of_reachable (h.run hrun)
  refine ⟨?_, hinv.at_rest_iff, fun code hmain => ?_⟩
  · have hle := (exhausts cfg).countP_le h hexit hrun
    omega
  · have hat := hinv.place
    simp only [At, hmain] at hat
    exact hat.2

theorem shutdown_completes_signalled :
    ∃ s s', (machine single).run signalled (start single) = some s ∧
      (machine single).run (stopped ++ List.replicate 4 (.main 0 true true)) s = some s' ∧
      29 ≤ s.load single ∧ s'.main = .returned 0 ∧ ∀ pool t, s'.isJoined pool t := by
  have hfirst : ((machine single).run signalled (start single)).map (·.globalExit) =
      some true := by decide +kernel
  obtain ⟨s, hs, hexit⟩ := Option.map_eq_some_iff.mp hfirst
  have hwhole : ((machine single).run
      (signalled ++ (stopped ++ List.replicate 4 (.main 0 true true))) (start single)).map
        (·.main) = some (.returned 0) := by decide +kernel
  obtain ⟨s', hs', hmain⟩ := Option.map_eq_some_iff.mp hwhole
  obtain ⟨u, hu, hrest⟩ := Machine.run_of_append hs'
  obtain rfl : s = u := Option.some.inj (hs.symm.trans hu)
  obtain ⟨hcount, -, hjoined⟩ :=
    shutdown_completes (Machine.reachable_of_run hs) hexit hrest
  refine ⟨s, s', hs, hrest, ?_, hmain, hjoined 0 hmain⟩
  refine le_of_eq_of_le ?_ hcount
  decide

end Process

end MultiplexServer

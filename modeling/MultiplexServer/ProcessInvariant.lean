import MultiplexServer.ProcessPools

/-! What holds in every state of the process: of its pools, and of the place where `main`
stands. No pool fails to start, `main` leaves its loop only when the exit flag is set, and
returns zero only if all active threads have left their loops in time. -/

namespace MultiplexServer

namespace Process

variable {cfg : ProcessConfig} {s s' : Process} {pool : ThreadPool} {t : Nat}

/-! ## What `main` may rely on -/

structure Steady (s s' : Process) : Prop where
  active : ∀ q, (s'.groups q).activeThreads = (s.groups q).activeThreads
  pc : ∀ q, (s'.groups q).pc = (s.groups q).pc
  created : ∀ q t, s.threads q t = .created → s'.threads q t = .created
  joined : ∀ q t, s.isJoined q t → s'.isJoined q t
  alive : ∀ q t, (s.groups q).alive t = false → (s'.groups q).alive t = false
  globalExit : s.globalExit = true → s'.globalExit = true

def Away (s : Process) (which : ThreadPool → Nat → Prop) : Prop :=
  ∀ q t, t ∈ (s.groups q).activeThreads → which q t → (s.groups q).alive t = false

/-- What holds where `main` stands. Once it has left its loop the exit flag is set. -/
def At (s : Process) : MainPc → Prop
  | .constructing => ∀ q t, s.threads q t = .created
  | .starting pool left =>
    left ⊆ (s.groups pool).activeThreads ∧ (∀ t ∈ left, s.threads pool t = .created) ∧
      ∀ q, pool.place < q.place → ∀ t, s.threads q t = .created
  | .looping | .maintaining _ | .entering _ | .inGroup _ | .maintainingPipeline => True
  | .stopping pool left result =>
    s.globalExit = true ∧ left ⊆ (s.groups pool).activeThreads ∧
      (result = true → s.Away fun q t => q.place < pool.place ∨ q = pool ∧ t ∉ left)
  | .polling pool u _ left result =>
    s.globalExit = true ∧ left ⊆ (s.groups pool).activeThreads ∧
      (result = true → s.Away fun q t => q.place < pool.place ∨ q = pool ∧ t ∉ left ∧ t ≠ u)
  | .destroying pool code =>
    s.globalExit = true ∧ (code = 0 → s.Away fun _ _ => True) ∧
      ∀ q, q.destroyedPlace < pool.destroyedPlace → ∀ t, s.isJoined q t
  | .returned _ => s.globalExit = true ∧ ∀ q t, s.isJoined q t

theorem Away.steady {which : ThreadPool → Nat → Prop} (h : s.Away which) (hs : Steady s s') :
    s'.Away which :=
  fun q t ht hwhich => hs.alive q t (h q t (hs.active q ▸ ht) hwhich)

theorem At.steady {pc : MainPc} (h : s.At pc) (hs : Steady s s') : s'.At pc := by
  cases pc with
  | constructing => exact fun q t => hs.created q t (h q t)
  | starting pool left =>
    obtain ⟨hleft, hcreated, hlater⟩ := h
    refine ⟨?_, fun t ht => hs.created pool t (hcreated t ht),
      fun q hq t => hs.created q t (hlater q hq t)⟩
    rwa [hs.active]
  | looping | maintaining | entering | inGroup | maintainingPipeline => trivial
  | stopping pool left result =>
    obtain ⟨hexit, hleft, haway⟩ := h
    refine ⟨hs.globalExit hexit, ?_, fun hresult => (haway hresult).steady hs⟩
    rwa [hs.active]
  | polling pool u limit left result =>
    obtain ⟨hexit, hleft, haway⟩ := h
    refine ⟨hs.globalExit hexit, ?_, fun hresult => (haway hresult).steady hs⟩
    rwa [hs.active]
  | destroying pool code =>
    obtain ⟨hexit, haway, hjoined⟩ := h
    exact ⟨hs.globalExit hexit, fun hcode => (haway hcode).steady hs,
      fun q hq t => hs.joined q t (hjoined q hq t)⟩
  | returned code => exact ⟨hs.globalExit h.1, fun q t => hs.joined q t (h.2 q t)⟩

structure Inv (cfg : ProcessConfig) (s : Process) : Prop where
  pools : ∀ pool, Pooled (cfg.size pool) (s.groups pool) (s.threads pool)
  idle : ∀ pool, s.main ≠ .inGroup pool → (s.groups pool).pc = .idle
  place : s.At s.main

theorem inv_start (cfg : ProcessConfig) : Inv cfg (start cfg) :=
  ⟨fun pool => pooled_start (cfg.size pool), fun _ _ => rfl, fun _ _ => rfl⟩

theorem size_pos (cfg : ProcessConfig) (pool : ThreadPool) : 0 < (cfg.size pool).toNat := by
  cases pool with
  | listen => exact Nat.one_pos
  | reader => exact cfg.readers
  | datamodel => exact cfg.datamodels
  | writer => exact cfg.writers

theorem Inv.card_active (h : Inv cfg s) (hmain : s.main ≠ .inGroup pool) :
    (s.groups pool).activeThreads.card = (cfg.size pool).toNat := by
  have hsized := (h.pools pool).whole.sized
  simpa only [ThreadGroup.Sized, h.idle pool hmain] using hsized

theorem Inv.active_nonempty (h : Inv cfg s) (hmain : s.main ≠ .inGroup pool) :
    (s.groups pool).activeThreads ≠ ∅ := by
  intro hempty
  have hcard := h.card_active hmain
  rw [hempty, Finset.card_empty] at hcard
  exact Nat.ne_of_lt (size_pos cfg pool) hcard

theorem Inv.active_lt (h : Inv cfg s) (ht : t ∈ (s.groups pool).activeThreads) :
    t < (s.groups pool).created :=
  (h.pools pool).whole.kept.created t (.inl ht)

/-! ## Threads -/

theorem Moved.threads_other (h : Moved cfg pool t s s') {q : ThreadPool} {u : Nat}
    (hother : ¬ (q = pool ∧ u = t)) : s'.threads q u = s.threads q u := by
  obtain ⟨pc, -, hthreads, -⟩ := h.threads
  rw [hthreads, setThread_other hother]

theorem Moved.groups_cases (h : Moved cfg pool t s s') (q : ThreadPool) :
    s'.groups q = s.groups q ∨ q = pool ∧
      ThreadGroup.step (cfg.size pool) (.setNotAlive t) (s.groups pool) = some (s'.groups q) := by
  obtain ⟨-, -, -, -, hgroups | ⟨-, group, hgroup, hgroups⟩⟩ := h.threads
  · exact .inl (by rw [hgroups])
  · by_cases hq : q = pool
    · refine .inr ⟨hq, ?_⟩
      rw [hgroup, hgroups, hq, setGroup_self]
    · exact .inl (by rw [hgroups, setGroup_other hq])

theorem step_setNotAlive {size : UInt64} {group group' : ThreadGroup}
    (h : ThreadGroup.step size (.setNotAlive t) group = some group') :
    group' = { group with alive := Function.update group.alive t false } := by
  simp only [ThreadGroup.step, Option.ite_none_right_eq_some] at h
  exact (Option.some.inj h.2).symm

theorem step_setExit {size : UInt64} {group group' : ThreadGroup}
    (h : ThreadGroup.step size (.setExit t) group = some group') :
    group' = { group with exit := Function.update group.exit t true } := by
  simp only [ThreadGroup.step, Option.ite_none_right_eq_some] at h
  exact (Option.some.inj h.2).symm

theorem Moved.steady (h : Moved cfg pool t s s') : Steady s s' where
  active q := by
    obtain hsame | ⟨rfl, hgroup⟩ := h.groups_cases q
    · rw [hsame]
    · rw [step_setNotAlive hgroup]
  pc q := by
    obtain hsame | ⟨rfl, hgroup⟩ := h.groups_cases q
    · rw [hsame]
    · rw [step_setNotAlive hgroup]
  created q u hu := by
    by_cases hself : q = pool ∧ u = t
    · obtain ⟨rfl, rfl⟩ := hself
      exact absurd hu h.notCreated
    · rw [h.threads_other hself, hu]
  joined q u hu := by
    by_cases hself : q = pool ∧ u = t
    · obtain ⟨rfl, rfl⟩ := hself
      exact (hu.elim h.notEnded h.notCreated).elim
    · unfold isJoined at hu ⊢
      rwa [h.threads_other hself]
  alive q u hu := by
    obtain hsame | ⟨rfl, hgroup⟩ := h.groups_cases q
    · rwa [hsame]
    · rw [step_setNotAlive hgroup]
      exact ThreadGroup.update_false _ u hu
  globalExit hexit := h.globalExit.trans hexit

theorem Inv.moved (h : Inv cfg s) (hmoved : Moved cfg pool t s s') : Inv cfg s' where
  pools q := by
    obtain ⟨pc, hpc, hthreads, hreturning, hgroups⟩ := hmoved.threads
    by_cases hq : q = pool
    · subst hq
      have hlt := (h.pools q).lt_created hmoved.notCreated
      have hpool := (h.pools q).move pc hlt hmoved.notEnded fun hat => .inr (hreturning hat)
      have hself : s'.threads q = Function.update (s.threads q) t pc := by
        rw [hthreads]
        exact Function.update_self _ _ _
      rw [hself]
      rcases hgroups with hgroups | ⟨rfl, group, hgroup, hgroups⟩
      · rwa [hgroups]
      · rw [hgroups, setGroup_self]
        exact hpool.setNotAlive (Function.update_self _ _ _) hgroup
    · have hother : s'.threads q = s.threads q := by
        rw [hthreads]
        exact Function.update_of_ne hq _ _
      have hgroup : s'.groups q = s.groups q :=
        (hmoved.groups_cases q).resolve_right fun heq => hq heq.1
      rw [hother, hgroup]
      exact h.pools q
  idle q hq := by
    rw [hmoved.steady.pc q]
    exact h.idle q (hmoved.main ▸ hq)
  place := by
    rw [hmoved.main]
    exact h.place.steady hmoved.steady

/-! ## `main` -/

theorem Inv.goto (h : Inv cfg s) {pc : MainPc} (hgroup : ∀ pool, s.main ≠ .inGroup pool)
    (hat : s.At pc) : Inv cfg (s.goto pc) where
  pools := h.pools
  idle pool _ := h.idle pool (hgroup pool)
  place := by cases pc <;> exact hat

theorem At.raise {pc : MainPc} (h : s.At pc) {flag : Bool}
    (hflag : s.globalExit = true → flag = true) : At { s with globalExit := flag } pc :=
  h.steady ⟨fun _ => rfl, fun _ => rfl, fun _ _ ht => ht, fun _ _ ht => ht, fun _ _ ht => ht, hflag⟩

theorem Inv.raise (h : Inv cfg s) {flag : Bool} (hflag : s.globalExit = true → flag = true) :
    Inv cfg { s with globalExit := flag } :=
  ⟨h.pools, h.idle, h.place.raise hflag⟩

theorem Inv.construct (h : Inv cfg s) (bound : Bool) : Inv cfg (s.construct cfg pool bound) := by
  unfold Process.construct
  split_ifs
  · exact h.raise fun hexit => by rw [hexit, Bool.true_or]
  · exact h

theorem Inv.startPool (h : Inv cfg s) (hgroup : ∀ pool, s.main ≠ .inGroup pool)
    (hcreated : ∀ q, pool.place ≤ q.place → ∀ t, s.threads q t = .created) :
    Inv cfg (s.startPool cfg pool) := by
  rw [Process.startPool, if_neg (h.active_nonempty (hgroup pool))]
  exact h.goto hgroup ⟨Finset.Subset.refl _, fun t _ => hcreated pool (Nat.le_refl _) t,
    fun q hq => hcreated q (Nat.le_of_lt hq)⟩

theorem Inv.stopPool (h : Inv cfg s) (hgroup : ∀ pool, s.main ≠ .inGroup pool)
    (hexit : s.globalExit = true) {result : Bool}
    (haway : result = true → s.Away fun q _ => q.place < pool.place) :
    Inv cfg (s.stopPool pool result) := by
  rw [Process.stopPool, if_neg (h.active_nonempty (hgroup pool))]
  refine h.goto hgroup ⟨hexit, Finset.Subset.refl _, fun hresult q t ht hwhich => ?_⟩
  rcases hwhich with hlt | ⟨rfl, hout⟩
  · exact haway hresult q t ht hlt
  · exact absurd ht hout

theorem Inv.maintainedPool (h : Inv cfg s) (hidle : ∀ pool, (s.groups pool).pc = .idle) :
    Inv cfg (s.maintainedPool pool) := by
  unfold Process.maintainedPool
  cases pool.next with
  | some q => exact ⟨h.pools, fun pool _ => hidle pool, trivial⟩
  | none => exact ⟨h.pools, fun pool _ => hidle pool, trivial⟩

theorem Inv.setGroup (h : Inv cfg s) (hmain : s.main = .inGroup pool) {group : ThreadGroup}
    (hpool : Pooled (cfg.size pool) group (s.threads pool)) : Inv cfg (s.setGroup pool group) where
  pools q := by
    by_cases hq : q = pool
    · subst hq
      rw [setGroup_self]
      exact hpool
    · rw [setGroup_other hq]
      exact h.pools q
  idle q hq := by
    have hne : q ≠ pool := by
      rintro rfl
      exact hq hmain
    rw [setGroup_other hne]
    exact h.idle q hq
  place := by
    rw [setGroup_main, hmain]
    trivial

theorem Inv.starting (h : Inv cfg s) {left : Finset Nat} (hmain : s.main = .starting pool left)
    (ht : t ∈ left) :
    Inv cfg ((s.setThread pool t .serviceLoop).goto (.starting pool (left.erase t))) := by
  have hat := h.place
  simp only [At, hmain] at hat
  obtain ⟨hleft, hcreated, hlater⟩ := hat
  have hself := hcreated t ht
  refine ⟨fun q => ?_, fun q _ => h.idle q (by simp [hmain]), ?_, fun u hu => ?_, fun q hq u => ?_⟩
  · by_cases hq : q = pool
    · subst hq
      have hpool := (h.pools q).move .serviceLoop (h.active_lt (hleft ht)) (by simp [hself])
        (by simp [hself])
      have hthreads : (s.setThread q t .serviceLoop).threads q =
          Function.update (s.threads q) t .serviceLoop := Function.update_self _ _ _
      rw [goto_groups, goto_threads, hthreads]
      exact hpool
    · have hthreads : (s.setThread pool t .serviceLoop).threads q = s.threads q :=
        Function.update_of_ne hq _ _
      rw [goto_groups, goto_threads, hthreads]
      exact h.pools q
  · exact (Finset.erase_subset t left).trans hleft
  · obtain ⟨hne, hu⟩ := Finset.mem_erase.mp hu
    rw [goto_threads, setThread_other fun heq => hne heq.2]
    exact hcreated u hu
  · rw [goto_threads, setThread_other fun heq => Nat.ne_of_gt hq (by rw [heq.1])]
    exact hlater q hq u

theorem Inv.started (h : Inv cfg s) (hmain : s.main = .starting pool ∅) {q : ThreadPool}
    (hq : pool.next = some q) : Inv cfg (s.startPool cfg q) := by
  have hat := h.place
  simp only [At, hmain] at hat
  refine h.startPool (by simp [hmain]) fun q' hle => hat.2.2 q' ?_
  have := ThreadPool.place_next hq
  omega

theorem Inv.stopping (h : Inv cfg s) {left : Finset Nat} {result : Bool} {limit : Nat}
    (hmain : s.main = .stopping pool left result) {group : ThreadGroup}
    (hgroup : ThreadGroup.step (cfg.size pool) (.setExit t) (s.groups pool) = some group) :
    Inv cfg ((s.setGroup pool group).goto (.polling pool t limit (left.erase t) result)) := by
  have hat := h.place
  simp only [At, hmain] at hat
  have hset := step_setExit hgroup
  have hsteady : Steady s (s.setGroup pool group) := by
    have hcases : ∀ q, (s.setGroup pool group).groups q = s.groups q ∨ q = pool ∧
        (s.setGroup pool group).groups q =
          { s.groups q with exit := Function.update (s.groups q).exit t true } := by
      intro q
      by_cases hq : q = pool
      · subst hq
        exact .inr ⟨rfl, (setGroup_self group).trans hset⟩
      · exact .inl (setGroup_other hq group)
    refine ⟨fun q => ?_, fun q => ?_, fun _ _ ht => ht, fun _ _ ht => ht, fun q u hu => ?_, id⟩
    · obtain hq | ⟨-, hq⟩ := hcases q <;> rw [hq]
    · obtain hq | ⟨-, hq⟩ := hcases q <;> rw [hq]
    · obtain hq | ⟨-, hq⟩ := hcases q <;> rwa [hq]
  refine ⟨fun q => ?_, fun q _ => ?_, ?_⟩
  · by_cases hq : q = pool
    · subst hq
      rw [goto_groups, setGroup_self]
      exact (h.pools q).setExit hgroup
    · rw [goto_groups, setGroup_other hq]
      exact h.pools q
  · rw [goto_groups, hsteady.pc]
    exact h.idle q (by simp [hmain])
  · change (s.setGroup pool group).At (.polling pool t limit (left.erase t) result)
    refine At.steady ?_ hsteady
    refine ⟨hat.1, (Finset.erase_subset t left).trans hat.2.1, fun hresult q u hu hwhich => ?_⟩
    refine hat.2.2 hresult q u hu (hwhich.imp_right fun ⟨hq, hout, hne⟩ => ⟨hq, fun hin => ?_⟩)
    exact hout (Finset.mem_erase.mpr ⟨hne, hin⟩)

theorem Inv.stopped (h : Inv cfg s) {result : Bool} (hmain : s.main = .stopping pool ∅ result) :
    (∀ q, pool.next = some q → Inv cfg (s.stopPool q result)) ∧
      (pool.next = none → Inv cfg (s.goto (.destroying .writer (if result then 0 else 1)))) := by
  have hat := h.place
  simp only [At, hmain] at hat
  obtain ⟨hexit, -, haway⟩ := hat
  constructor
  · intro q hq
    refine h.stopPool (by simp [hmain]) hexit fun hresult q' u hu hlt => ?_
    rw [ThreadPool.place_next hq] at hlt
    refine haway hresult q' u hu ?_
    rcases Nat.lt_succ_iff_lt_or_eq.mp hlt with hlt | heq
    · exact .inl hlt
    · exact .inr ⟨ThreadPool.place_injective heq, Finset.notMem_empty u⟩
  · intro hlast
    refine h.goto (by simp [hmain]) ⟨hexit, fun hcode q u hu _ => ?_, fun q hq => ?_⟩
    · have hresult : result = true := by
        cases result with
        | true => rfl
        | false => cases hcode
      refine haway hresult q u hu ?_
      rcases Nat.lt_or_eq_of_le (ThreadPool.place_le hlast q) with hlt | heq
      · exact .inl hlt
      · exact .inr ⟨ThreadPool.place_injective heq, Finset.notMem_empty u⟩
    · exact absurd hq (Nat.not_lt_zero _)

theorem Inv.polled (h : Inv cfg s) {u limit : Nat} {left : Finset Nat} {result : Bool}
    (hmain : s.main = .polling pool u limit left result) :
    ((s.groups pool).alive u = false → Inv cfg (s.goto (.stopping pool left result))) ∧
      Inv cfg (s.goto (.stopping pool ∅ false)) ∧
      ∀ limit, Inv cfg (s.goto (.polling pool u limit left result)) := by
  have hat := h.place
  simp only [At, hmain] at hat
  obtain ⟨hexit, hleft, haway⟩ := hat
  have hgroup : ∀ q, s.main ≠ .inGroup q := by simp [hmain]
  refine ⟨fun halive => ?_, ?_, fun _ => h.goto hgroup ⟨hexit, hleft, haway⟩⟩
  · refine h.goto hgroup ⟨hexit, hleft, fun hresult q t ht hwhich => ?_⟩
    by_cases hself : q = pool ∧ t = u
    · obtain ⟨rfl, rfl⟩ := hself
      exact halive
    · refine haway hresult q t ht (hwhich.imp_right fun ⟨hq, hout⟩ => ⟨hq, hout, fun heq => ?_⟩)
      exact hself ⟨hq, heq⟩
  · exact h.goto hgroup ⟨hexit, Finset.empty_subset _, nofun⟩

theorem Inv.joined (h : Inv cfg s) (hjoined : ∀ u ∈ members (s.groups pool), s.isJoined pool u)
    (u : Nat) : s.isJoined pool u := by
  by_cases hnew : (s.groups pool).created ≤ u
  · exact .inr ((h.pools pool).fresh u hnew)
  · by_cases hin : (s.groups pool).InPool u
    · refine hjoined u ?_
      rcases hin with hin | hin | hin <;> simp [members, hin]
    · exact .inl ((h.pools pool).dropped u (Nat.lt_of_not_le hnew) hin)

theorem Inv.destroyed (h : Inv cfg s) {code : Nat} (hmain : s.main = .destroying pool code)
    (hjoined : ∀ u ∈ members (s.groups pool), s.isJoined pool u) :
    (∀ q, pool.destroyedNext = some q → Inv cfg (s.goto (.destroying q code))) ∧
      (pool.destroyedNext = none → Inv cfg (s.goto (.returned code))) := by
  have hat := h.place
  simp only [At, hmain] at hat
  obtain ⟨hexit, haway, hbefore⟩ := hat
  have hall : ∀ q, q.destroyedPlace ≤ pool.destroyedPlace → ∀ u, s.isJoined q u := by
    intro q hq
    rcases Nat.lt_or_eq_of_le hq with hlt | heq
    · exact hbefore q hlt
    · rw [ThreadPool.destroyedPlace_injective heq]
      exact h.joined hjoined
  constructor
  · intro q hq
    refine h.goto (by simp [hmain]) ⟨hexit, haway, fun q' hlt => hall q' ?_⟩
    rw [ThreadPool.destroyedPlace_next hq] at hlt
    exact Nat.le_of_lt_succ hlt
  · intro hlast
    exact h.goto (by simp [hmain]) ⟨hexit, fun q => hall q (ThreadPool.destroyedPlace_le hlast q)⟩

theorem Inv.groupStep (h : Inv cfg s) (hmain : s.main = .inGroup pool) {bound : Bool}
    (hstep : s.groupStep cfg pool t bound = some s') : Inv cfg s' := by
  have hpool := h.pools pool
  unfold Process.groupStep at hstep
  cases hpc : (s.groups pool).pc with
  | idle =>
    simp only [hpc, Option.ite_none_right_eq_some, Option.map_eq_some_iff] at hstep
    obtain ⟨hended, group, hgroup, rfl⟩ := hstep
    exact h.setGroup hmain (hpool.call hpc hended hgroup)
  | scanningExiting left =>
    simp only [hpc, Option.map_eq_some_iff] at hstep
    obtain ⟨group, hgroup, rfl⟩ := hstep
    exact h.setGroup hmain (hpool.frame (hpool.whole.step _ hgroup)
      (ThreadGroup.frame_scanningExiting hpool.whole hpc hgroup))
  | scanningActive left =>
    simp only [hpc, Option.map_eq_some_iff] at hstep
    obtain ⟨group, hgroup, rfl⟩ := hstep
    exact h.setGroup hmain (hpool.frame (hpool.whole.step _ hgroup)
      (ThreadGroup.frame_scanningActive hpool.whole hpc hgroup))
  | readingExit u left =>
    simp only [hpc, Option.map_eq_some_iff] at hstep
    obtain ⟨group, hgroup, rfl⟩ := hstep
    exact h.setGroup hmain (hpool.frame (hpool.whole.step _ hgroup)
      (ThreadGroup.frame_readingExit hpool.whole hpc hgroup))
  | refilling n =>
    cases n with
    | zero =>
      simp only [hpc, Option.map_eq_some_iff] at hstep
      obtain ⟨group, hgroup, rfl⟩ := hstep
      have hwhole := hpool.whole.step _ hgroup
      simp only [ThreadGroup.step, hpc, Option.some.injEq] at hgroup
      subst hgroup
      have hset := h.setGroup hmain
        (hpool.frame hwhole ⟨rfl, rfl, fun _ => Iff.rfl⟩)
      refine hset.maintainedPool fun q => ?_
      by_cases hq : q = pool
      · subst hq
        rw [setGroup_self]
        rfl
      · refine hset.idle q ?_
        rw [setGroup_main, hmain]
        exact fun heq => hq (MainPc.inGroup.inj heq).symm
    | succ n =>
      simp only [hpc, Option.map_eq_some_iff] at hstep
      obtain ⟨group, hgroup, rfl⟩ := hstep
      have hnew := hpool.prestart hpc hgroup
      refine Inv.construct ⟨fun q => ?_, fun q hq => ?_, ?_⟩ bound
      · by_cases hq : q = pool
        · subst hq
          have hthreads : ((s.setGroup q group).setThread q (s.groups q).created
              .serviceLoop).threads q =
                Function.update (s.threads q) (s.groups q).created .serviceLoop :=
            Function.update_self _ _ _
          simp only [setThread_groups, setGroup_self, hthreads]
          exact hnew
        · have hthreads : ((s.setGroup pool group).setThread pool (s.groups pool).created
              .serviceLoop).threads q = s.threads q := Function.update_of_ne hq _ _
          simp only [setThread_groups, setGroup_other hq, hthreads]
          exact h.pools q
      · have hne : q ≠ pool := by
          rintro rfl
          exact hq hmain
        simp only [setThread_groups, setGroup_other hne]
        exact h.idle q hq
      · simp only [setThread_main, setGroup_main, hmain]
        trivial

theorem Inv.mainStep (h : Inv cfg s) {bound maintained : Bool}
    (hstep : s.mainStep cfg t bound maintained = some s') : Inv cfg s' := by
  have hat := h.place
  unfold Process.mainStep at hstep
  cases hmain : s.main with
  | constructing =>
    simp only [At, hmain] at hat
    simp only [hmain, Option.some.injEq] at hstep
    subst hstep
    exact (h.construct bound).startPool (by simp [hmain]) fun q _ t => by
      rw [construct_threads]
      exact hat q t
  | starting pool left =>
    simp only [At, hmain] at hat
    simp only [hmain] at hstep
    split_ifs at hstep with ht hcreated hleft
    · cases hstep
      exact h.starting hmain ht
    · exact absurd (hat.2.1 t ht) hcreated
    · subst hleft
      cases hnext : pool.next with
      | some q =>
        simp only [hnext, Option.some.injEq] at hstep
        subst hstep
        exact h.started hmain hnext
      | none =>
        simp only [hnext, Option.some.injEq] at hstep
        subst hstep
        exact h.goto (by simp [hmain]) trivial
  | looping =>
    simp only [hmain] at hstep
    split_ifs at hstep with hexit <;> cases hstep
    · exact h.stopPool (by simp [hmain]) hexit fun _ _ _ _ hlt => absurd hlt (Nat.not_lt_zero _)
    · exact h.goto (by simp [hmain]) trivial
  | maintaining pool =>
    simp only [hmain] at hstep
    split_ifs at hstep <;> cases hstep <;> exact h.goto (by simp [hmain]) trivial
  | entering pool =>
    simp only [hmain] at hstep
    split_ifs at hstep <;> cases hstep
    · exact h.maintainedPool fun q => h.idle q (by simp [hmain])
    · exact h.goto (by simp [hmain]) trivial
  | inGroup pool =>
    simp only [hmain] at hstep
    exact h.groupStep hmain hstep
  | maintainingPipeline =>
    simp only [hmain] at hstep
    split_ifs at hstep <;> cases hstep
    · exact h.goto (by simp [hmain]) trivial
    · exact h.goto (by simp [hmain]) trivial
    · exact (h.raise fun _ => rfl).stopPool (by simp [hmain]) rfl
        fun _ _ _ _ hlt => absurd hlt (Nat.not_lt_zero _)
  | stopping pool left result =>
    simp only [hmain] at hstep
    by_cases ht : t ∈ left
    · rw [if_pos ht] at hstep
      obtain ⟨group, hgroup, rfl⟩ := Option.map_eq_some_iff.mp hstep
      exact h.stopping hmain hgroup
    · rw [if_neg ht, Option.ite_none_right_eq_some] at hstep
      obtain ⟨rfl, hstep⟩ := hstep
      obtain ⟨hnext, hlast⟩ := h.stopped hmain
      cases hpool : pool.next with
      | some q =>
        simp only [hpool, Option.some.injEq] at hstep
        subst hstep
        exact hnext q hpool
      | none =>
        simp only [hpool, Option.some.injEq] at hstep
        subst hstep
        exact hlast hpool
  | polling pool u limit left result =>
    obtain ⟨hleft, hgiveUp, hagain⟩ := h.polled hmain
    simp only [hmain] at hstep
    split_ifs at hstep with halive
    · cases hstep
      exact hleft (by simpa using halive)
    · cases limit <;> cases hstep
      · exact hgiveUp
      · exact hagain _
  | destroying pool code =>
    simp only [hmain] at hstep
    split_ifs at hstep with hjoined
    obtain ⟨hnext, hlast⟩ := h.destroyed hmain hjoined
    cases hpool : pool.destroyedNext with
    | some q =>
      simp only [hpool, Option.some.injEq] at hstep
      subst hstep
      exact hnext q hpool
    | none =>
      simp only [hpool, Option.some.injEq] at hstep
      subst hstep
      exact hlast hpool
  | returned code => simp [hmain] at hstep

theorem Inv.step (h : Inv cfg s) {a : ProcessStep} (hstep : s.step cfg a = some s') :
    Inv cfg s' := by
  cases a with
  | signal =>
    cases hstep
    exact h.raise fun _ => rfl
  | thread pool t listened => exact h.moved (moved_of_threadStep hstep)
  | main t bound maintained => exact h.mainStep hstep

theorem inv_of_reachable (h : (machine cfg).Reachable s) : Inv cfg s :=
  Machine.Reachable.invariant (inv_start cfg) (fun _ _ _ _ hs hstep => hs.step hstep) h

/-! ## What follows for the process -/

def hasLeftLoop : MainPc → Bool
  | .constructing | .starting _ _ | .looping | .maintaining _ | .entering _ | .inGroup _
  | .maintainingPipeline => false
  | .stopping _ _ _ | .polling _ _ _ _ _ | .destroying _ _ | .returned _ => true

/-- The service of a thread has been destroyed: with the next call after it was found dead,
or with its pool. -/
def isDestroyed (s : Process) (pool : ThreadPool) (t : Nat) : Prop :=
  t < (s.groups pool).created ∧ (¬ (s.groups pool).InPool t ∨
    (∃ current code, s.main = .destroying current code ∧
      pool.destroyedPlace < current.destroyedPlace) ∨ ∃ code, s.main = .returned code)

theorem Inv.globalExit (h : Inv cfg s) (hleft : hasLeftLoop s.main = true) :
    s.globalExit = true := by
  have hat := h.place
  cases hmain : s.main with
  | constructing | starting | looping | maintaining | entering | inGroup
  | maintainingPipeline => simp [hmain, hasLeftLoop] at hleft
  | stopping | polling | destroying | returned =>
    simp only [At, hmain] at hat
    exact hat.1

/-- No pool is empty, and no thread has been started before. -/
theorem Inv.step_starting (h : Inv cfg s) {bound maintained : Bool}
    (hstarting : isStarting s.main = true)
    (hstep : s.mainStep cfg t bound maintained = some s') :
    isStarting s'.main = true ∨ s'.main = .looping := by
  have hat := h.place
  cases (leads_of_mainStep hstep).1 with
  | starting _ after => exact after
  | failing _ reason _ =>
    obtain ⟨pool, hempty⟩ | ⟨pool, left, hmain, t, ht, hcreated⟩ := reason
    · refine absurd hempty (h.active_nonempty fun hmain => ?_)
      rw [hmain] at hstarting
      cases hstarting
    · simp only [At, hmain] at hat
      exact absurd (hat.2.1 t ht) hcreated
  | maintaining before => exact absurd ⟨hstarting, before⟩ (stations_apart _).1
  | stopping before => exact absurd ⟨hstarting, before⟩ (stations_apart _).2.1
  | looping before | destroying _ _ _ before | returning _ before =>
    rw [before] at hstarting
    cases hstarting

/-- `main` comes from the start of its pools only to its loop, leaves it with the exit flag
set only, and will return zero only if no active thread was alive any more when it began to
destroy the pools. -/
theorem stops_with_exit_flag (h : (machine cfg).Reachable s) :
    (∀ t bound maintained s', isStarting s.main = true →
      s.mainStep cfg t bound maintained = some s' →
        isStarting s'.main = true ∨ s'.main = .looping) ∧
    (hasLeftLoop s.main = true → s.globalExit = true) ∧
    ∀ pool, s.main = .destroying pool 0 →
      ∀ q, ∀ t ∈ (s.groups q).activeThreads, (s.groups q).alive t = false := by
  have hinv := inv_of_reachable h
  refine ⟨fun _ _ _ _ => hinv.step_starting, hinv.globalExit, fun pool hmain q t ht => ?_⟩
  have hat := hinv.place
  simp only [At, hmain] at hat
  exact hat.2.1 trivial q t ht trivial

theorem Inv.isJoined_of_isDestroyed (h : Inv cfg s) (ht : s.isDestroyed pool t) :
    s.isJoined pool t := by
  have hat := h.place
  obtain ⟨hlt, hout | ⟨current, code, hmain, hplace⟩ | ⟨code, hmain⟩⟩ := ht
  · exact .inl ((h.pools pool).dropped t hlt hout)
  · simp only [At, hmain] at hat
    exact hat.2.2 pool hplace t
  · simp only [At, hmain] at hat
    exact hat.2 pool t

/-- Whatever its pool, a thread does not run any more when its service is destroyed. -/
theorem joined_before_destroyed (h : (machine cfg).Reachable s) (ht : s.isDestroyed pool t) :
    s.isJoined pool t :=
  (inv_of_reachable h).isJoined_of_isDestroyed ht

/-- What is proved of one group under maintenance holds of each pool of the process, whatever
the others do; and its threads are as far as the flags and the sets tell. -/
theorem pools_kept (h : (machine cfg).Reachable s) (pool : ThreadPool) :
    (s.main ≠ .inGroup pool → (s.groups pool).activeThreads.card = (cfg.size pool).toNat) ∧
    (s.groups pool).activeThreads.card ≤ (cfg.size pool).toNat ∧
    Disjoint (s.groups pool).activeThreads (s.groups pool).exitingThreads ∧
    Disjoint (s.groups pool).activeThreads (s.groups pool).deadThreads ∧
    Disjoint (s.groups pool).exitingThreads (s.groups pool).deadThreads ∧
    (∀ t < (s.groups pool).created, (s.groups pool).InPool t ∨
      (s.groups pool).Buried t ∧ s.threads pool t = .ended) ∧
    ∀ t, (s.groups pool).alive t = false →
      s.threads pool t = .returning ∨ s.threads pool t = .ended := by
  have hinv := inv_of_reachable h
  obtain ⟨hwhole, halive, -, hdropped⟩ := hinv.pools pool
  refine ⟨hinv.card_active, hwhole.card_le, hwhole.kept.activeExiting, hwhole.kept.activeDead,
    hwhole.kept.exitingDead, fun t ht => ?_, halive⟩
  by_cases hin : (s.groups pool).InPool t
  · exact .inl hin
  · exact .inr ⟨(hwhole.kept.accounted t ht).resolve_left hin, hdropped t ht hin⟩

def single : ProcessConfig :=
  ⟨1, 1, 1, Nat.one_pos, Nat.one_pos, Nat.one_pos, 25, [], ⟨true, true, false, "info"⟩⟩

def signalled : List ProcessStep := List.replicate 9 (.main 0 true true) ++ [.signal]

def stopped : List ProcessStep :=
  (MainLoop.pools.flatMap fun pool => List.replicate 3 (.thread pool 0 .ok)) ++
    List.replicate 13 (.main 0 true true)

theorem stops_with_exit_flag_signalled :
    ∃ s, (machine single).run (signalled ++ stopped) (start single) = some s ∧
      s.globalExit = true ∧ (s.groups .reader).alive 0 = false := by
  have hrun : ((machine single).run (signalled ++ stopped) (start single)).map
      (fun s => (s.main, (s.groups .reader).activeThreads)) =
        some (.destroying .writer 0, {0}) := by decide +kernel
  obtain ⟨s, hs, hstate⟩ := Option.map_eq_some_iff.mp hrun
  obtain ⟨hmain, hactive⟩ := Prod.mk.inj hstate
  obtain ⟨-, hflag, hcode⟩ := stops_with_exit_flag (Machine.reachable_of_run hs)
  refine ⟨s, hs, hflag (by rw [hmain]; rfl), hcode .writer hmain .reader 0 ?_⟩
  rw [hactive]
  exact Finset.mem_singleton_self 0

theorem joined_before_destroyed_signalled :
    ∃ s, (machine single).run (signalled ++ stopped ++ [.main 0 true true]) (start single) =
      some s ∧ s.isJoined .writer 0 := by
  have hrun : ((machine single).run (signalled ++ stopped ++ [.main 0 true true])
      (start single)).map (fun s => (s.main, (s.groups .writer).created)) =
        some (.destroying .reader 0, 1) := by decide +kernel
  obtain ⟨s, hs, hstate⟩ := Option.map_eq_some_iff.mp hrun
  obtain ⟨hmain, hcreated⟩ := Prod.mk.inj hstate
  have hdestroyed : s.isDestroyed .writer 0 :=
    ⟨hcreated ▸ Nat.one_pos, .inr (.inl ⟨.reader, 0, hmain, by decide⟩)⟩
  exact ⟨s, hs, joined_before_destroyed (Machine.reachable_of_run hs) hdestroyed⟩

theorem pools_kept_signalled :
    ∃ s, (machine single).run (signalled ++ stopped) (start single) = some s ∧
      (s.groups .reader).activeThreads.card = 1 ∧
      (s.threads .reader 0 = .returning ∨ s.threads .reader 0 = .ended) := by
  have hrun : ((machine single).run (signalled ++ stopped) (start single)).map
      (fun s => (s.main, (s.groups .reader).alive 0)) =
        some (.destroying .writer 0, false) := by decide +kernel
  obtain ⟨s, hs, hstate⟩ := Option.map_eq_some_iff.mp hrun
  obtain ⟨hmain, hdead⟩ := Prod.mk.inj hstate
  obtain ⟨hcard, -, -, -, -, -, halive⟩ := pools_kept (Machine.reachable_of_run hs) .reader
  exact ⟨s, hs, hcard (by simp [hmain]), halive 0 hdead⟩

end Process

end MultiplexServer

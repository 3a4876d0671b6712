import MultiplexServer.ProcessInvariant

/-! What each step of the process does to the groups, the threads and the ids of the
services, and that the services keep apart by their ids. -/

namespace MultiplexServer

def GroupStep.isFlag : GroupStep → Bool
  | .setNotAlive _ | .setExit _ => true
  | .call | .scan _ | .proceed => false

namespace Process

variable {cfg : ProcessConfig} {s s' : Process} {pool : ThreadPool} {t : Nat}

theorem isFlag_scanStep (t : Nat) (left : Finset Nat) : (scanStep t left).isFlag = false := by
  unfold scanStep
  split_ifs <;> rfl

inductive Changed (cfg : ProcessConfig) (s s' : Process) : Prop where
  | none (groups : s'.groups = s.groups) (threads : s'.threads = s.threads)
      (ids : s'.ids = s.ids) (nextId : s'.nextId = s.nextId)
  | started (pool : ThreadPool) (t : Nat) (groups : s'.groups = s.groups)
      (created : s.threads pool t = .created)
      (threads : s'.threads = (s.setThread pool t .serviceLoop).threads)
      (ids : s'.ids = s.ids) (nextId : s'.nextId = s.nextId)
  | group (pool : ThreadPool) (a : GroupStep) (group : ThreadGroup)
      (taken : ThreadGroup.step (cfg.size pool) a (s.groups pool) = some group)
      (flag : a.isFlag = false ∨ s.globalExit = true)
      (created : group.created = (s.groups pool).created)
      (groups : s'.groups = (s.setGroup pool group).groups) (threads : s'.threads = s.threads)
      (ids : s'.ids = s.ids) (nextId : s'.nextId = s.nextId)
  | prestarted (pool : ThreadPool) (n : Nat) (group : ThreadGroup)
      (refilling : (s.groups pool).pc = .refilling (n + 1))
      (taken : ThreadGroup.step (cfg.size pool) .proceed (s.groups pool) = some group)
      (groups : s'.groups = (s.setGroup pool group).groups)
      (threads : s'.threads = (s.setThread pool (s.groups pool).created .serviceLoop).threads)
      (ids : s'.ids = Function.update s.ids pool
        (Function.update (s.ids pool) (s.groups pool).created s.nextId))
      (nextId : s'.nextId = s.nextId + 1)

theorem changed_goto (main : MainPc) : Changed cfg s (s.goto main) :=
  .none rfl rfl rfl rfl

theorem changed_startPool : Changed cfg s (s.startPool cfg pool) := by
  unfold startPool
  split_ifs
  · exact .none rfl rfl rfl rfl
  · exact changed_goto _

theorem changed_stopPool {result : Bool} : Changed cfg s (s.stopPool pool result) :=
  changed_goto _

theorem changed_maintainedPool : Changed cfg s (s.maintainedPool pool) := by
  unfold maintainedPool
  cases pool.next <;> exact changed_goto _

theorem Inv.changed_groupStep (h : Inv cfg s) {bound : Bool}
    (hstep : s.groupStep cfg pool t bound = some s') : Changed cfg s s' := by
  have hwhole := (h.pools pool).whole
  unfold Process.groupStep at hstep
  cases hpc : (s.groups pool).pc with
  | idle =>
    simp only [hpc, Option.ite_none_right_eq_some, Option.map_eq_some_iff] at hstep
    obtain ⟨-, group, hgroup, rfl⟩ := hstep
    have hcreated : group.created = (s.groups pool).created := by
      simp only [ThreadGroup.step, hpc, Option.some.injEq] at hgroup
      rw [← hgroup]
      rfl
    exact .group pool .call group hgroup (.inl rfl) hcreated rfl rfl rfl rfl
  | scanningExiting left =>
    simp only [hpc, Option.map_eq_some_iff] at hstep
    obtain ⟨group, hgroup, rfl⟩ := hstep
    exact .group pool _ group hgroup (.inl (isFlag_scanStep t left))
      (ThreadGroup.frame_scanningExiting hwhole hpc hgroup).created rfl rfl rfl rfl
  | scanningActive left =>
    simp only [hpc, Option.map_eq_some_iff] at hstep
    obtain ⟨group, hgroup, rfl⟩ := hstep
    exact .group pool _ group hgroup (.inl (isFlag_scanStep t left))
      (ThreadGroup.frame_scanningActive hwhole hpc hgroup).created rfl rfl rfl rfl
  | readingExit u left =>
    simp only [hpc, Option.map_eq_some_iff] at hstep
    obtain ⟨group, hgroup, rfl⟩ := hstep
    exact .group pool _ group hgroup (.inl rfl)
      (ThreadGroup.frame_readingExit hwhole hpc hgroup).created rfl rfl rfl rfl
  | refilling n =>
    cases n with
    | zero =>
      simp only [hpc, Option.map_eq_some_iff] at hstep
      obtain ⟨group, hgroup, rfl⟩ := hstep
      have hcreated : group.created = (s.groups pool).created := by
        simp only [ThreadGroup.step, hpc, Option.some.injEq] at hgroup
        rw [← hgroup]
        rfl
      unfold Process.maintainedPool
      cases pool.next <;> exact .group pool _ group hgroup (.inl rfl) hcreated rfl rfl rfl rfl
    | succ n =>
      simp only [hpc, Option.map_eq_some_iff] at hstep
      obtain ⟨group, hgroup, rfl⟩ := hstep
      refine .prestarted pool n group hpc hgroup ?_ ?_ ?_ ?_
      · rw [prestart, construct_groups]
        rfl
      · rw [prestart, construct_threads]
        rfl
      · rw [prestart, construct_ids]
        rfl
      · rw [prestart, construct_nextId]
        rfl

theorem Inv.changed (h : Inv cfg s) {bound maintained : Bool}
    (hstep : s.mainStep cfg t bound maintained = some s') : Changed cfg s s' := by
  unfold Process.mainStep at hstep
  cases hmain : s.main with
  | constructing =>
    simp only [hmain, Option.some.injEq] at hstep
    subst hstep
    unfold Process.startPool
    split_ifs <;> exact .none (construct_groups bound) (construct_threads bound)
      (construct_ids bound) (construct_nextId bound)
  | starting pool left =>
    simp only [hmain] at hstep
    split_ifs at hstep with ht hcreated hleft
    · cases hstep
      exact .started pool t rfl hcreated rfl rfl rfl
    · cases hstep
      exact .none rfl rfl rfl rfl
    · cases hnext : pool.next with
      | some q =>
        simp only [hnext, Option.some.injEq] at hstep
        exact hstep ▸ changed_startPool
      | none =>
        simp only [hnext, Option.some.injEq] at hstep
        exact hstep ▸ changed_goto _
  | looping =>
    simp only [hmain] at hstep
    split_ifs at hstep <;> cases hstep
    · exact changed_stopPool
    · exact changed_goto _
  | maintaining pool =>
    simp only [hmain] at hstep
    split_ifs at hstep <;> cases hstep <;> exact changed_goto _
  | entering pool =>
    simp only [hmain] at hstep
    split_ifs at hstep <;> cases hstep
    · exact changed_maintainedPool
    · exact changed_goto _
  | inGroup pool =>
    simp only [hmain] at hstep
    exact h.changed_groupStep hstep
  | maintainingPipeline =>
    simp only [hmain] at hstep
    split_ifs at hstep <;> cases hstep <;> exact .none rfl rfl rfl rfl
  | stopping pool left result =>
    simp only [hmain] at hstep
    by_cases ht : t ∈ left
    · rw [if_pos ht] at hstep
      obtain ⟨group, hgroup, rfl⟩ := Option.map_eq_some_iff.mp hstep
      have hcreated : group.created = (s.groups pool).created := by rw [step_setExit hgroup]
      have hexit : s.globalExit = true := h.globalExit (by rw [hmain]; rfl)
      exact .group pool _ group hgroup (.inr hexit) hcreated rfl rfl rfl rfl
    · rw [if_neg ht, Option.ite_none_right_eq_some] at hstep
      obtain ⟨-, hstep⟩ := hstep
      cases hpool : pool.next with
      | some q =>
        simp only [hpool, Option.some.injEq] at hstep
        exact hstep ▸ changed_stopPool
      | none =>
        simp only [hpool, Option.some.injEq] at hstep
        exact hstep ▸ changed_goto _
  | polling pool u limit left result =>
    simp only [hmain] at hstep
    split_ifs at hstep
    · cases hstep
      exact changed_goto _
    · cases limit <;> cases hstep <;> exact changed_goto _
  | destroying pool code =>
    simp only [hmain, Option.ite_none_right_eq_some] at hstep
    obtain ⟨-, hstep⟩ := hstep
    cases hpool : pool.destroyedNext with
    | some q =>
      simp only [hpool, Option.some.injEq] at hstep
      exact hstep ▸ changed_goto _
    | none =>
      simp only [hpool, Option.some.injEq] at hstep
      exact hstep ▸ changed_goto _
  | returned code => simp [hmain] at hstep

/-! ## The ids -/

structure Numbered (s : Process) : Prop where
  positive : 0 < s.nextId
  below : ∀ pool t, t < (s.groups pool).created → s.ids pool t < s.nextId
  distinct : ∀ pool t pool' t', t < (s.groups pool).created → t' < (s.groups pool').created →
    s.ids pool t = s.ids pool' t' → pool = pool' ∧ t = t'
  first : ∀ pool t, t < (s.groups pool).created → s.ids pool t = 0 → pool = .listen ∧ t = 0

theorem numbered_start (cfg : ProcessConfig) : Numbered (start cfg) := by
  have hlisten : (cfg.size .listen).toNat = 1 := rfl
  have hdatamodel := cfg.datamodels
  have hreader := cfg.readers
  have hwriter := cfg.writers
  refine ⟨?_, fun pool t ht => ?_, fun pool t pool' t' ht ht' heq => ?_, fun pool t ht hid => ?_⟩
  · simp only [start, firstId]
    omega
  · simp only [start, ThreadGroup.start] at ht ⊢
    cases pool <;> simp only [firstId] at ht ⊢ <;> omega
  · simp only [start, ThreadGroup.start] at ht ht' heq
    cases pool <;> cases pool' <;> simp only [firstId] at heq <;>
      first
      | exact ⟨rfl, by omega⟩
      | omega
  · simp only [start, ThreadGroup.start] at ht hid
    cases pool <;> simp only [firstId] at hid <;>
      first
      | exact ⟨rfl, by omega⟩
      | omega

theorem Numbered.same (h : Numbered s) (hids : s'.ids = s.ids) (hnextId : s'.nextId = s.nextId)
    (hcreated : ∀ q, (s'.groups q).created = (s.groups q).created) : Numbered s' := by
  refine ⟨?_, fun pool t ht => ?_, fun pool t pool' t' ht ht' => ?_, fun pool t ht => ?_⟩
  · rw [hnextId]
    exact h.positive
  · rw [hids, hnextId]
    exact h.below pool t (hcreated pool ▸ ht)
  · rw [hids]
    exact h.distinct pool t pool' t' (hcreated pool ▸ ht) (hcreated pool' ▸ ht')
  · rw [hids]
    exact h.first pool t (hcreated pool ▸ ht)

theorem Numbered.prestarted (h : Numbered s)
    (hids : s'.ids = Function.update s.ids pool
      (Function.update (s.ids pool) (s.groups pool).created s.nextId))
    (hnextId : s'.nextId = s.nextId + 1)
    (hcreated : ∀ q t, t < (s'.groups q).created ↔
      t < (s.groups q).created ∨ q = pool ∧ t = (s.groups pool).created) : Numbered s' := by
  have hnew : s'.ids pool (s.groups pool).created = s.nextId := by
    rw [hids, Function.update_self, Function.update_self]
  have hold : ∀ q t, t < (s.groups q).created → s'.ids q t = s.ids q t := by
    intro q t ht
    rw [hids]
    by_cases hq : q = pool
    · subst hq
      rw [Function.update_self, Function.update_of_ne (Nat.ne_of_lt ht)]
    · rw [Function.update_of_ne hq]
  refine ⟨?_, fun q t ht => ?_, fun q t q' t' ht ht' heq => ?_, fun q t ht hid => ?_⟩
  · rw [hnextId]
    exact Nat.succ_pos _
  · rw [hnextId]
    rcases (hcreated q t).mp ht with ht | ⟨rfl, rfl⟩
    · rw [hold q t ht]
      exact Nat.lt_succ_of_lt (h.below q t ht)
    · rw [hnew]
      exact Nat.lt_succ_self _
  · rcases (hcreated q t).mp ht with ht | ⟨rfl, rfl⟩ <;>
      rcases (hcreated q' t').mp ht' with ht' | ⟨rfl, rfl⟩
    · rw [hold q t ht, hold q' t' ht'] at heq
      exact h.distinct q t q' t' ht ht' heq
    · rw [hold q t ht, hnew] at heq
      exact absurd heq (Nat.ne_of_lt (h.below q t ht))
    · rw [hold q' t' ht', hnew] at heq
      exact absurd heq.symm (Nat.ne_of_lt (h.below q' t' ht'))
    · exact ⟨rfl, rfl⟩
  · rcases (hcreated q t).mp ht with ht | ⟨rfl, rfl⟩
    · rw [hold q t ht] at hid
      exact h.first q t ht hid
    · rw [hnew] at hid
      exact absurd hid (Nat.ne_of_gt h.positive)

theorem created_prestarted {n : Nat} {group : ThreadGroup}
    (hpc : (s.groups pool).pc = .refilling (n + 1))
    (hgroup : ThreadGroup.step (cfg.size pool) .proceed (s.groups pool) = some group)
    (hgroups : s'.groups = (s.setGroup pool group).groups) (q : ThreadPool) (t : Nat) :
    t < (s'.groups q).created ↔
      t < (s.groups q).created ∨ q = pool ∧ t = (s.groups pool).created := by
  simp only [ThreadGroup.step, hpc, Option.some.injEq] at hgroup
  by_cases hq : q = pool
  · subst hq
    rw [hgroups, setGroup_self, ← hgroup]
    change t < (s.groups q).created + 1 ↔ _
    rw [Nat.lt_succ_iff_lt_or_eq]
    simp
  · rw [hgroups, setGroup_other hq]
    simp [hq]

theorem created_setGroup {group : ThreadGroup} (hcreated : group.created = (s.groups pool).created)
    (hgroups : s'.groups = (s.setGroup pool group).groups) (q : ThreadPool) :
    (s'.groups q).created = (s.groups q).created := by
  by_cases hq : q = pool
  · subst hq
    rw [hgroups, setGroup_self, hcreated]
  · rw [hgroups, setGroup_other hq]

theorem Moved.created (h : Moved cfg pool t s s') (q : ThreadPool) :
    (s'.groups q).created = (s.groups q).created := by
  obtain hsame | ⟨rfl, hgroup⟩ := h.groups_cases q
  · rw [hsame]
  · rw [step_setNotAlive hgroup]

theorem Numbered.step (h : Numbered s) (hinv : Inv cfg s) {a : ProcessStep}
    (hstep : s.step cfg a = some s') : Numbered s' := by
  cases a with
  | signal =>
    cases hstep
    exact h.same rfl rfl fun _ => rfl
  | thread q t listened =>
    have hmoved := moved_of_threadStep hstep
    exact h.same hmoved.ids hmoved.nextId hmoved.created
  | main t bound maintained =>
    cases hinv.changed hstep with
    | none groups _ ids nextId => exact h.same ids nextId fun q => by rw [groups]
    | started _ _ groups _ _ ids nextId => exact h.same ids nextId fun q => by rw [groups]
    | group q b group _ _ created groups _ ids nextId =>
      exact h.same ids nextId (created_setGroup created groups)
    | prestarted q n group refilling taken groups _ ids nextId =>
      exact h.prestarted ids nextId (created_prestarted refilling taken groups)

theorem numbered_of_reachable (h : (machine cfg).Reachable s) : Numbered s :=
  Machine.Reachable.invariant (numbered_start cfg)
    (fun _ _ _ hs hnumbered hstep => hnumbered.step (inv_of_reachable hs) hstep) h

def attributesId (s : Process) (pool : ThreadPool) (t : Nat) : UInt64 := .ofNat (s.ids pool t)

theorem Numbered.attributesId (h : Numbered s) (hmade : s.nextId ≤ UInt64.size)
    (ht : t < (s.groups pool).created) : (s.attributesId pool t).toNat = s.ids pool t :=
  UInt64.toNat_ofNat_of_lt' (Nat.lt_of_lt_of_le (h.below pool t ht) hmade)

/-- The services of the process are numbered apart, and only the first listener has the
number of an element that nobody owns; so are their ids, until 2 ^ 64 services have been
made. -/
theorem ids_distinct (h : (machine cfg).Reachable s) {pool' : ThreadPool} {t' : Nat}
    (ht : t < (s.groups pool).created) (ht' : t' < (s.groups pool').created) :
    (s.ids pool t = s.ids pool' t' ↔ pool = pool' ∧ t = t') ∧
    (s.ids pool t = 0 → pool = .listen ∧ t = 0) ∧
    (s.nextId ≤ UInt64.size →
      (s.attributesId pool t = s.attributesId pool' t' ↔ pool = pool' ∧ t = t') ∧
      (s.attributesId pool t = 0 → pool = .listen ∧ t = 0)) := by
  have hnumbered := numbered_of_reachable h
  refine ⟨⟨hnumbered.distinct pool t pool' t' ht ht', ?_⟩, hnumbered.first pool t ht,
    fun hmade => ⟨⟨fun heq => ?_, ?_⟩, fun hzero => ?_⟩⟩
  · rintro ⟨rfl, rfl⟩
    rfl
  · refine hnumbered.distinct pool t pool' t' ht ht' ?_
    rw [← hnumbered.attributesId hmade ht, ← hnumbered.attributesId hmade ht', heq]
  · rintro ⟨rfl, rfl⟩
    rfl
  · refine hnumbered.first pool t ht ?_
    rw [← hnumbered.attributesId hmade ht, hzero]
    rfl

def replaced : List ProcessStep :=
  List.replicate 9 (.main 0 true true) ++
    [.thread .listen 0 .ok, .thread .listen 0 .failed, .thread .listen 0 .ok] ++
      List.replicate 9 (.main 0 true true)

theorem ids_distinct_replaced :
    ∃ s, (machine single).run replaced (start single) = some s ∧
      s.attributesId .listen 1 ≠ s.attributesId .writer 0 ∧ s.attributesId .listen 1 ≠ 0 := by
  have hrun : ((machine single).run replaced (start single)).map
      (fun s => ((s.groups .listen).created, (s.groups .writer).created, s.nextId)) =
        some (2, 1, 5) := by decide +kernel
  obtain ⟨s, hs, hstate⟩ := Option.map_eq_some_iff.mp hrun
  obtain ⟨hlisten, hstate⟩ := Prod.mk.inj hstate
  obtain ⟨hwriter, hnextId⟩ := Prod.mk.inj hstate
  obtain ⟨-, -, hids⟩ := @ids_distinct single s .listen 1 (Machine.reachable_of_run hs)
    .writer 0 (by omega) (by omega)
  obtain ⟨hdistinct, hfirst⟩ := hids (by rw [hnextId]; decide)
  refine ⟨s, hs, fun heq => ?_, fun hzero => ?_⟩
  · cases (hdistinct.mp heq).1
  · cases (hfirst hzero).2

end Process

end MultiplexServer

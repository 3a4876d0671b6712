import MultiplexServer.Library.Machine
import MultiplexServer.Logger
import MultiplexServer.Networks
import MultiplexServer.ServerMaintenance
import MultiplexServer.ThreadGroupCalls
import MultiplexServer.ThreadGroupMaintenance

/-! The process from the construction of `c_server` to the return of `main`: the main
thread, the service threads of the four pools and the signal handler take their steps in
any order. A thread is its number in its pool; between its steps stand the reads of the
exit flags. Exceptions are left out, and so is what a pass of a service does. -/

namespace MultiplexServer
open Strings

namespace ThreadPool

def next : ThreadPool → Option ThreadPool
  | .listen => some .reader
  | .reader => some .datamodel
  | .datamodel => some .writer
  | .writer => none

/-- Members are destroyed in the reverse order of their declaration. -/
def destroyedNext : ThreadPool → Option ThreadPool
  | .writer => some .reader
  | .reader => some .datamodel
  | .datamodel => some .listen
  | .listen => none

def place : ThreadPool → Nat
  | .listen => 0
  | .reader => 1
  | .datamodel => 2
  | .writer => 3

def destroyedPlace : ThreadPool → Nat
  | .writer => 0
  | .reader => 1
  | .datamodel => 2
  | .listen => 3

theorem place_next {pool pool' : ThreadPool} (h : pool.next = some pool') :
    pool'.place = pool.place + 1 := by
  cases pool <;> cases h <;> rfl

theorem place_injective {pool pool' : ThreadPool} (h : pool.place = pool'.place) :
    pool = pool' := by
  cases pool <;> cases pool' <;> first | rfl | cases h

theorem place_le {pool : ThreadPool} (h : pool.next = none) (pool' : ThreadPool) :
    pool'.place ≤ pool.place := by
  cases pool with
  | listen | reader | datamodel => cases h
  | writer => cases pool' <;> decide

theorem destroyedPlace_next {pool pool' : ThreadPool} (h : pool.destroyedNext = some pool') :
    pool'.destroyedPlace = pool.destroyedPlace + 1 := by
  cases pool <;> cases h <;> rfl

theorem destroyedPlace_injective {pool pool' : ThreadPool}
    (h : pool.destroyedPlace = pool'.destroyedPlace) : pool = pool' := by
  cases pool <;> cases pool' <;> first | rfl | cases h

theorem destroyedPlace_le {pool : ThreadPool} (h : pool.destroyedNext = none)
    (pool' : ThreadPool) : pool'.destroyedPlace ≤ pool.destroyedPlace := by
  cases pool with
  | reader | datamodel | writer => cases h
  | listen => cases pool' <;> decide

end ThreadPool

/-- Where a thread stands: not started, at the loop of `service_loop`, at the start of a
`service` that listens first, in the loop of `service`, at the end of `service_loop` where
the alive flag is taken back, behind it, returned. -/
inductive ServicePc where
  | created
  | serviceLoop
  | connectListen
  | service
  | leaving
  | returning
  | ended
  deriving DecidableEq

inductive Listened where
  | ok
  | notLocked
  | failed
  deriving DecidableEq

structure ProcessConfig where
  readerPoolSize : UInt64
  datamodelPoolSize : UInt64
  writerPoolSize : UInt64
  readers : 0 < readerPoolSize.toNat
  datamodels : 0 < datamodelPoolSize.toNat
  writers : 0 < writerPoolSize.toNat
  waitServiceExit : Int
  bindIp : Bytes
  log : LogConfig

/-- A fatal message that is written sets the exit flag. -/
def ProcessConfig.fatalSignals (cfg : ProcessConfig) : Bool := cfg.log.isFatalOn

/-- A new listener says with a fatal message that what is configured is not an address, which
it then does without, or that it cannot bind its port. -/
def ProcessConfig.refuses (cfg : ProcessConfig) (bound : Bool) : Bool :=
  cfg.fatalSignals &&
    (!cfg.bindIp.isEmpty && !Networks.isIpv4AddressFormat cfg.bindIp || !bound)

/-- How many threads the factory makes for a pool: the listener's size is not used. -/
def ProcessConfig.size (cfg : ProcessConfig) : ThreadPool → UInt64
  | .listen => 1
  | .reader => cfg.readerPoolSize
  | .datamodel => cfg.datamodelPoolSize
  | .writer => cfg.writerPoolSize

inductive MainPc where
  | constructing
  | starting (pool : ThreadPool) (left : Finset Nat)
  | looping
  | maintaining (pool : ThreadPool)
  | entering (pool : ThreadPool)
  | inGroup (pool : ThreadPool)
  | maintainingPipeline
  | stopping (pool : ThreadPool) (left : Finset Nat) (result : Bool)
  | polling (pool : ThreadPool) (thread limit : Nat) (left : Finset Nat) (result : Bool)
  | destroying (pool : ThreadPool) (code : Nat)
  | returned (code : Nat)
  deriving DecidableEq

structure Process where
  globalExit : Bool
  groups : ThreadPool → ThreadGroup
  threads : ThreadPool → Nat → ServicePc
  ids : ThreadPool → Nat → Nat
  nextId : Nat
  main : MainPc

/-- A signal, a step of a thread, or a step of `main`: with the thread that comes next in a
set, whether a new listener can bind its port, what the maintenance of the pipes returns. -/
inductive ProcessStep where
  | signal
  | thread (pool : ThreadPool) (thread : Nat) (listened : Listened)
  | main (thread : Nat) (bound maintained : Bool)

namespace Process

def goto (s : Process) (main : MainPc) : Process := { s with main }

def setGroup (s : Process) (pool : ThreadPool) (group : ThreadGroup) : Process :=
  { s with groups := Function.update s.groups pool group }

def setThread (s : Process) (pool : ThreadPool) (t : Nat) (pc : ServicePc) : Process :=
  { s with
    threads := Function.update s.threads pool (Function.update (s.threads pool) t pc) }

def isExitAny (s : Process) (pool : ThreadPool) (t : Nat) : Bool :=
  (s.groups pool).exit t || s.globalExit

def construct (cfg : ProcessConfig) (pool : ThreadPool) (bound : Bool) (s : Process) : Process :=
  if pool = .listen then { s with globalExit := s.globalExit || cfg.refuses bound } else s

def threadStep (cfg : ProcessConfig) (pool : ThreadPool) (t : Nat) (listened : Listened)
    (s : Process) : Option Process :=
  match s.threads pool t with
  | .created | .ended => none
  | .serviceLoop =>
    if s.isExitAny pool t then some (s.setThread pool t .leaving)
    else if pool = .listen then some (s.setThread pool t .connectListen)
    else some (s.setThread pool t .service)
  | .connectListen =>
    match listened with
    | .ok => some (s.setThread pool t .service)
    | .notLocked => some (s.setThread pool t .serviceLoop)
    | .failed => some (s.setThread pool t .leaving)
  | .service => if s.isExitAny pool t then some (s.setThread pool t .serviceLoop) else some s
  | .leaving =>
    (ThreadGroup.step (cfg.size pool) (.setNotAlive t) (s.groups pool)).map fun group =>
      (s.setGroup pool group).setThread pool t .returning
  | .returning => some (s.setThread pool t .ended)

def startFailed (cfg : ProcessConfig) (s : Process) : Process :=
  { s with globalExit := s.globalExit || cfg.fatalSignals, main := .destroying .writer 1 }

def startPool (cfg : ProcessConfig) (pool : ThreadPool) (s : Process) : Process :=
  if (s.groups pool).activeThreads = ∅ then s.startFailed cfg
  else s.goto (.starting pool (s.groups pool).activeThreads)

def stopPool (pool : ThreadPool) (result : Bool) (s : Process) : Process :=
  s.goto (.stopping pool (s.groups pool).activeThreads
    (if (s.groups pool).activeThreads = ∅ then false else result))

def maintainedPool (pool : ThreadPool) (s : Process) : Process :=
  match pool.next with
  | some pool => s.goto (.maintaining pool)
  | none => s.goto .maintainingPipeline

def prestart (cfg : ProcessConfig) (pool : ThreadPool) (t : Nat) (bound : Bool) (s : Process) :
    Process :=
  { s.setThread pool t .serviceLoop with
    ids := Function.update s.ids pool (Function.update (s.ids pool) t s.nextId)
    nextId := s.nextId + 1 }.construct cfg pool bound

def scanStep (t : Nat) (left : Finset Nat) : GroupStep :=
  if left = ∅ then .proceed else .scan t

/-- One step of `do_thread_group_maintenance`. A dead thread is joined when it is dropped. -/
def groupStep (cfg : ProcessConfig) (pool : ThreadPool) (t : Nat) (bound : Bool) (s : Process) :
    Option Process :=
  let group := s.groups pool
  match group.pc with
  | .idle =>
    if ∀ u ∈ group.deadThreads, s.threads pool u = .ended then
      (ThreadGroup.step (cfg.size pool) .call group).map (s.setGroup pool)
    else none
  | .scanningExiting left | .scanningActive left =>
    (ThreadGroup.step (cfg.size pool) (scanStep t left) group).map (s.setGroup pool)
  | .readingExit _ _ => (ThreadGroup.step (cfg.size pool) .proceed group).map (s.setGroup pool)
  | .refilling (_ + 1) =>
    (ThreadGroup.step (cfg.size pool) .proceed group).map fun refilled =>
      (s.setGroup pool refilled).prestart cfg pool group.created bound
  | .refilling 0 =>
    (ThreadGroup.step (cfg.size pool) .proceed group).map fun refilled =>
      (s.setGroup pool refilled).maintainedPool pool

def members (group : ThreadGroup) : Finset Nat :=
  group.activeThreads ∪ group.exitingThreads ∪ group.deadThreads

def isJoined (s : Process) (pool : ThreadPool) (t : Nat) : Prop :=
  s.threads pool t = .ended ∨ s.threads pool t = .created

instance (s : Process) (pool : ThreadPool) (t : Nat) : Decidable (s.isJoined pool t) :=
  inferInstanceAs (Decidable (_ ∨ _))

def mainStep (cfg : ProcessConfig) (t : Nat) (bound maintained : Bool) (s : Process) :
    Option Process :=
  match s.main with
  | .constructing => some ((s.construct cfg .listen bound).startPool cfg .listen)
  | .starting pool left =>
    if t ∈ left then
      if s.threads pool t = .created then
        some ((s.setThread pool t .serviceLoop).goto (.starting pool (left.erase t)))
      else some (s.startFailed cfg)
    else if left = ∅ then
      match pool.next with
      | some pool => some (s.startPool cfg pool)
      | none => some (s.goto .looping)
    else none
  | .looping =>
    if s.globalExit then some (s.stopPool .listen true) else some (s.goto (.maintaining .listen))
  | .maintaining pool =>
    if s.globalExit then some (s.goto .looping) else some (s.goto (.entering pool))
  | .entering pool =>
    if s.globalExit then some (s.maintainedPool pool) else some (s.goto (.inGroup pool))
  | .inGroup pool => s.groupStep cfg pool t bound
  | .maintainingPipeline =>
    if s.globalExit then some (s.goto .looping)
    else if maintained then some (s.goto .looping)
    else some ({ s with globalExit := true }.stopPool .listen true)
  | .stopping pool left result =>
    if t ∈ left then
      (ThreadGroup.step (cfg.size pool) (.setExit t) (s.groups pool)).map fun group =>
        (s.setGroup pool group).goto
          (.polling pool t (GroupThread.exitLimit cfg.waitServiceExit) (left.erase t) result)
    else if left = ∅ then
      match pool.next with
      | some pool => some (s.stopPool pool result)
      | none => some (s.goto (.destroying .writer (if result then 0 else 1)))
    else none
  | .polling pool u limit left result =>
    if !(s.groups pool).alive u then some (s.goto (.stopping pool left result))
    else
      match limit with
      | 0 => some (s.goto (.stopping pool ∅ false))
      | limit + 1 => some (s.goto (.polling pool u limit left result))
  | .destroying pool code =>
    if ∀ u ∈ members (s.groups pool), s.isJoined pool u then
      match pool.destroyedNext with
      | some pool => some (s.goto (.destroying pool code))
      | none => some (s.goto (.returned code))
    else none
  | .returned _ => none

def step (cfg : ProcessConfig) : ProcessStep → Process → Option Process
  | .signal, s => some { s with globalExit := true }
  | .thread pool t listened, s => s.threadStep cfg pool t listened
  | .main t bound maintained, s => s.mainStep cfg t bound maintained

/-- The id of the first service of a pool: they are made in the order of the members. -/
def firstId (cfg : ProcessConfig) : ThreadPool → Nat
  | .listen => 0
  | .datamodel => 1
  | .reader => 1 + (cfg.size .datamodel).toNat
  | .writer => 1 + (cfg.size .datamodel).toNat + (cfg.size .reader).toNat

def start (cfg : ProcessConfig) : Process where
  globalExit := false
  groups pool := .start (cfg.size pool)
  threads _ _ := .created
  ids pool t := firstId cfg pool + t
  nextId := firstId cfg .writer + (cfg.size .writer).toNat
  main := .constructing

def machine (cfg : ProcessConfig) : Machine Process ProcessStep := ⟨start cfg, step cfg⟩

variable {cfg : ProcessConfig} {s s' : Process} {pool : ThreadPool} {t : Nat}

/-! ## The fields -/

section Fields

variable (s) (pool) (t)

@[simp] theorem goto_globalExit (main : MainPc) : (s.goto main).globalExit = s.globalExit := rfl

@[simp] theorem goto_groups (main : MainPc) : (s.goto main).groups = s.groups := rfl

@[simp] theorem goto_threads (main : MainPc) : (s.goto main).threads = s.threads := rfl

@[simp] theorem goto_ids (main : MainPc) : (s.goto main).ids = s.ids := rfl

@[simp] theorem goto_nextId (main : MainPc) : (s.goto main).nextId = s.nextId := rfl

@[simp] theorem goto_main (main : MainPc) : (s.goto main).main = main := rfl

@[simp] theorem setGroup_threads (group : ThreadGroup) :
    (s.setGroup pool group).threads = s.threads := rfl

@[simp] theorem setGroup_globalExit (group : ThreadGroup) :
    (s.setGroup pool group).globalExit = s.globalExit := rfl

@[simp] theorem setGroup_ids (group : ThreadGroup) : (s.setGroup pool group).ids = s.ids := rfl

@[simp] theorem setGroup_nextId (group : ThreadGroup) :
    (s.setGroup pool group).nextId = s.nextId := rfl

@[simp] theorem setGroup_main (group : ThreadGroup) :
    (s.setGroup pool group).main = s.main := rfl

@[simp] theorem setThread_groups (pc : ServicePc) : (s.setThread pool t pc).groups = s.groups :=
  rfl

@[simp] theorem setThread_globalExit (pc : ServicePc) :
    (s.setThread pool t pc).globalExit = s.globalExit := rfl

@[simp] theorem setThread_ids (pc : ServicePc) : (s.setThread pool t pc).ids = s.ids := rfl

@[simp] theorem setThread_nextId (pc : ServicePc) :
    (s.setThread pool t pc).nextId = s.nextId := rfl

@[simp] theorem setThread_main (pc : ServicePc) : (s.setThread pool t pc).main = s.main := rfl

variable {s} {pool} {t}

theorem setGroup_self (group : ThreadGroup) : (s.setGroup pool group).groups pool = group :=
  Function.update_self _ _ _

theorem setGroup_other {q : ThreadPool} (h : q ≠ pool) (group : ThreadGroup) :
    (s.setGroup pool group).groups q = s.groups q :=
  Function.update_of_ne h _ _

theorem setThread_self (pc : ServicePc) : (s.setThread pool t pc).threads pool t = pc := by
  simp [setThread]

theorem setThread_other {q : ThreadPool} {u : Nat} (h : ¬ (q = pool ∧ u = t)) (pc : ServicePc) :
    (s.setThread pool t pc).threads q u = s.threads q u := by
  by_cases hq : q = pool
  · subst hq
    have hu : u ≠ t := fun hu => h ⟨rfl, hu⟩
    simp [setThread, hu]
  · simp [setThread, hq]

@[simp] theorem construct_groups (bound : Bool) :
    (s.construct cfg pool bound).groups = s.groups := by
  unfold construct
  split_ifs <;> rfl

@[simp] theorem construct_threads (bound : Bool) :
    (s.construct cfg pool bound).threads = s.threads := by
  unfold construct
  split_ifs <;> rfl

@[simp] theorem construct_ids (bound : Bool) : (s.construct cfg pool bound).ids = s.ids := by
  unfold construct
  split_ifs <;> rfl

@[simp] theorem construct_nextId (bound : Bool) :
    (s.construct cfg pool bound).nextId = s.nextId := by
  unfold construct
  split_ifs <;> rfl

@[simp] theorem construct_main (bound : Bool) : (s.construct cfg pool bound).main = s.main := by
  unfold construct
  split_ifs <;> rfl

theorem construct_globalExit (bound : Bool) (h : s.globalExit = true) :
    (s.construct cfg pool bound).globalExit = true := by
  unfold construct
  split_ifs
  · simp [h]
  · exact h

end Fields

/-! ## Where `main` goes -/

def isStarting : MainPc → Bool
  | .constructing | .starting _ _ => true
  | .looping | .maintaining _ | .entering _ | .inGroup _ | .maintainingPipeline
  | .stopping _ _ _ | .polling _ _ _ _ _ | .destroying _ _ | .returned _ => false

/-- `main` is in `do_process_maintenance`. -/
def isMaintaining : MainPc → Bool
  | .maintaining _ | .entering _ | .inGroup _ | .maintainingPipeline => true
  | .constructing | .starting _ _ | .looping | .stopping _ _ _ | .polling _ _ _ _ _
  | .destroying _ _ | .returned _ => false

def isStopping : MainPc → Bool
  | .stopping _ _ _ | .polling _ _ _ _ _ => true
  | .constructing | .starting _ _ | .looping | .maintaining _ | .entering _ | .inGroup _
  | .maintainingPipeline | .destroying _ _ | .returned _ => false

theorem stations_apart (pc : MainPc) : ¬ (isStarting pc = true ∧ isMaintaining pc = true) ∧
    ¬ (isStarting pc = true ∧ isStopping pc = true) ∧
    ¬ (isMaintaining pc = true ∧ isStopping pc = true) := by
  cases pc <;> simp [isStarting, isMaintaining, isStopping]

/-- The stations of `main`, with what it needs to fail at the start and to leave its loop. -/
inductive Leads (s s' : Process) : Prop where
  | starting (before : isStarting s.main = true)
      (after : isStarting s'.main = true ∨ s'.main = .looping)
  | failing (before : isStarting s.main = true)
      (reason : (∃ pool, (s.groups pool).activeThreads = ∅) ∨
        ∃ pool left, s.main = .starting pool left ∧ ∃ t ∈ left, s.threads pool t ≠ .created)
      (after : s'.main = .destroying .writer 1)
  | looping (before : s.main = .looping)
      (after : s.globalExit = true ∧ isStopping s'.main = true ∨
        s.globalExit = false ∧ isMaintaining s'.main = true)
  | maintaining (before : isMaintaining s.main = true)
      (after : isMaintaining s'.main = true ∨ s'.main = .looping ∨ isStopping s'.main = true)
  | stopping (before : isStopping s.main = true)
      (after : isStopping s'.main = true ∨ ∃ code, s'.main = .destroying .writer code)
  | destroying (pool next : ThreadPool) (code : Nat) (before : s.main = .destroying pool code)
      (after : s'.main = .destroying next code)
  | returning (code : Nat) (before : s.main = .destroying .listen code)
      (after : s'.main = .returned code)

theorem startPool_globalExit (hexit : s.globalExit = true) :
    (s.startPool cfg pool).globalExit = true := by
  unfold startPool
  split_ifs
  · simp [startFailed, hexit]
  · exact hexit

theorem leads_startPool {s₀ : Process} (hgroups : s.groups = s₀.groups)
    (hbefore : isStarting s₀.main = true) : Leads s₀ (s.startPool cfg pool) := by
  unfold startPool
  split_ifs with hempty
  · exact .failing hbefore (.inl ⟨pool, hgroups ▸ hempty⟩) rfl
  · exact .starting hbefore (.inl rfl)

theorem maintainedPool_main : isMaintaining (s.maintainedPool pool).main = true ∧
    (s.maintainedPool pool).globalExit = s.globalExit := by
  unfold maintainedPool
  cases pool.next <;> exact ⟨rfl, rfl⟩

theorem groupStep_main (hmain : s.main = .inGroup pool) {bound : Bool}
    (hstep : s.groupStep cfg pool t bound = some s') :
    isMaintaining s'.main = true ∧ (s.globalExit = true → s'.globalExit = true) := by
  have hstays : ∀ group, isMaintaining (s.setGroup pool group).main = true := by
    intro group
    rw [setGroup_main, hmain]
    rfl
  unfold groupStep at hstep
  cases hpc : (s.groups pool).pc with
  | idle =>
    simp only [hpc, Option.ite_none_right_eq_some, Option.map_eq_some_iff] at hstep
    obtain ⟨-, group, -, rfl⟩ := hstep
    exact ⟨hstays group, id⟩
  | scanningExiting | scanningActive | readingExit =>
    simp only [hpc, Option.map_eq_some_iff] at hstep
    obtain ⟨group, -, rfl⟩ := hstep
    exact ⟨hstays group, id⟩
  | refilling n =>
    cases n with
    | zero =>
      simp only [hpc, Option.map_eq_some_iff] at hstep
      obtain ⟨group, -, rfl⟩ := hstep
      obtain ⟨hmaintains, hflag⟩ := @maintainedPool_main (s.setGroup pool group) pool
      exact ⟨hmaintains, fun hexit => hflag.trans hexit⟩
    | succ n =>
      simp only [hpc, Option.map_eq_some_iff] at hstep
      obtain ⟨group, -, rfl⟩ := hstep
      refine ⟨?_, fun hexit => construct_globalExit bound hexit⟩
      rw [prestart, construct_main]
      exact hstays group

/-- The exit flag stays set. -/
theorem leads_of_mainStep {bound maintained : Bool}
    (hstep : s.mainStep cfg t bound maintained = some s') :
    Leads s s' ∧ (s.globalExit = true → s'.globalExit = true) := by
  unfold mainStep at hstep
  cases hmain : s.main with
  | constructing =>
    simp only [hmain, Option.some.injEq] at hstep
    subst hstep
    exact ⟨leads_startPool (construct_groups bound) (by rw [hmain]; rfl),
      fun hexit => startPool_globalExit (construct_globalExit bound hexit)⟩
  | starting pool left =>
    have hbefore : isStarting s.main = true := by rw [hmain]; rfl
    simp only [hmain] at hstep
    split_ifs at hstep with ht hcreated hleft
    · cases hstep
      exact ⟨.starting hbefore (.inl rfl), id⟩
    · cases hstep
      refine ⟨.failing hbefore (.inr ⟨pool, left, hmain, t, ht, hcreated⟩) rfl, fun hexit => ?_⟩
      simp [startFailed, hexit]
    · cases hnext : pool.next with
      | some q =>
        simp only [hnext, Option.some.injEq] at hstep
        subst hstep
        exact ⟨leads_startPool rfl hbefore, startPool_globalExit⟩
      | none =>
        simp only [hnext, Option.some.injEq] at hstep
        subst hstep
        exact ⟨.starting hbefore (.inr rfl), id⟩
  | looping =>
    simp only [hmain] at hstep
    split_ifs at hstep with hexit <;> cases hstep
    · exact ⟨.looping hmain (.inl ⟨hexit, rfl⟩), id⟩
    · exact ⟨.looping hmain (.inr ⟨Bool.eq_false_iff.mpr hexit, rfl⟩), id⟩
  | maintaining pool =>
    have hbefore : isMaintaining s.main = true := by rw [hmain]; rfl
    simp only [hmain] at hstep
    split_ifs at hstep <;> cases hstep
    · exact ⟨.maintaining hbefore (.inr (.inl rfl)), id⟩
    · exact ⟨.maintaining hbefore (.inl rfl), id⟩
  | entering pool =>
    have hbefore : isMaintaining s.main = true := by rw [hmain]; rfl
    simp only [hmain] at hstep
    split_ifs at hstep <;> cases hstep
    · obtain ⟨hmaintains, hflag⟩ := @maintainedPool_main s pool
      exact ⟨.maintaining hbefore (.inl hmaintains), fun hexit => hflag.trans hexit⟩
    · exact ⟨.maintaining hbefore (.inl rfl), id⟩
  | inGroup pool =>
    simp only [hmain] at hstep
    obtain ⟨hmaintains, hflag⟩ := groupStep_main hmain hstep
    exact ⟨.maintaining (by rw [hmain]; rfl) (.inl hmaintains), hflag⟩
  | maintainingPipeline =>
    have hbefore : isMaintaining s.main = true := by rw [hmain]; rfl
    simp only [hmain] at hstep
    split_ifs at hstep <;> cases hstep
    · exact ⟨.maintaining hbefore (.inr (.inl rfl)), id⟩
    · exact ⟨.maintaining hbefore (.inr (.inl rfl)), id⟩
    · exact ⟨.maintaining hbefore (.inr (.inr rfl)), fun _ => rfl⟩
  | stopping pool left result =>
    have hbefore : isStopping s.main = true := by rw [hmain]; rfl
    simp only [hmain] at hstep
    by_cases ht : t ∈ left
    · rw [if_pos ht] at hstep
      obtain ⟨group, -, rfl⟩ := Option.map_eq_some_iff.mp hstep
      exact ⟨.stopping hbefore (.inl rfl), id⟩
    · rw [if_neg ht, Option.ite_none_right_eq_some] at hstep
      obtain ⟨-, hstep⟩ := hstep
      cases hnext : pool.next <;> simp only [hnext, Option.some.injEq] at hstep <;> subst hstep
      · exact ⟨.stopping hbefore (.inr ⟨_, rfl⟩), id⟩
      · exact ⟨.stopping hbefore (.inl rfl), id⟩
  | polling pool u limit left result =>
    have hbefore : isStopping s.main = true := by rw [hmain]; rfl
    simp only [hmain] at hstep
    split_ifs at hstep
    · cases hstep
      exact ⟨.stopping hbefore (.inl rfl), id⟩
    · cases limit <;> cases hstep <;> exact ⟨.stopping hbefore (.inl rfl), id⟩
  | destroying pool code =>
    simp only [hmain, Option.ite_none_right_eq_some] at hstep
    obtain ⟨-, hstep⟩ := hstep
    cases pool with
    | writer | reader | datamodel =>
      cases hstep
      exact ⟨.destroying _ _ code hmain rfl, id⟩
    | listen =>
      cases hstep
      exact ⟨.returning code hmain rfl, id⟩
  | returned code => simp [hmain] at hstep

end Process

end MultiplexServer

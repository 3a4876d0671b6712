import MultiplexServer.Library.Refinement
import MultiplexServer.ProcessWorkers
import MultiplexServer.ServerShutdown

/-! The whole program: the life of the process, in which the passes of the services are
the iterations of the server, and the descriptors are closed when the listener is destroyed.
A thread that has tested its exit flags makes its pass some steps later, and that pass is one
step. A listener whose `listen` fails is left out: the one that replaces it would have a table
of its own. -/

namespace MultiplexServer

namespace Process

variable {cfg : ProcessConfig} {s s' : Process} {t code : Nat}

theorem destroying_of_returned {bound maintained : Bool}
    (hstep : s.mainStep cfg t bound maintained = some s') (hmain' : s'.main = .returned code) :
    s.main = .destroying .listen code := by
  cases (leads_of_mainStep hstep).1 with
  | returning code' before after =>
    rw [after] at hmain'
    cases hmain'
    exact before
  | starting _ after | failing _ _ after | looping _ after | maintaining _ after
  | stopping _ after | destroying _ _ _ _ after =>
    simp [hmain', isStarting, isMaintaining, isStopping] at after

end Process

/-- The threads in `passing` have found no exit flag and have yet to make the pass that the
test let them make, and so has `main` before it maintains the pipes. -/
structure Program (cfg : ServerConfig) where
  process : Process
  server : Server cfg
  passing : ThreadPool → Nat → Bool
  maintaining : Bool

/-- The steps of the process, with the iteration of a thread that makes its pass and
the mutexes that are obtained in the maintenance of the pipes. -/
inductive ProgramStep where
  | signal
  | thread (pool : ThreadPool) (thread : Nat) (listened : Listened) (iteration : Server.Iteration)
  | main (thread : Nat) (bound maintained : Bool) (acquired : Stage → Bool)

namespace Program

variable {cfg : ServerConfig}

def isPassOf (pool : ThreadPool) (id : Nat) : Server.Iteration → Bool
  | .listener objectId _ => pool = .listen && objectId = id
  | .reader objectId _ _ _ => pool = .reader && objectId = id
  | .datamodel objectId _ => pool = .datamodel && objectId = id
  | .writer objectId _ _ _ => pool = .writer && objectId = id
  | .maintenance _ => false

def passes (s : Program cfg) (pool : ThreadPool) (t : Nat) : Bool :=
  s.process.threads pool t = .service && !s.process.isExitAny pool t

def maintains (s : Program cfg) : Bool :=
  s.process.main = .maintainingPipeline && !s.maintaining && !s.process.globalExit

def setPassing (s : Program cfg) (pool : ThreadPool) (t : Nat) (flag : Bool) : Program cfg :=
  { s with passing := Function.update s.passing pool (Function.update (s.passing pool) t flag) }

def pass (s : Program cfg) (pool : ThreadPool) (t : Nat) (iteration : Server.Iteration) :
    Option (Program cfg) :=
  if isPassOf pool (s.process.ids pool t) iteration then
    (Server.step iteration s.server).map fun server =>
      { s with server }.setPassing pool t false
  else none

def maintain (s : Program cfg) (acquired : Stage → Bool) : Server cfg :=
  match s.process.main with
  | .maintainingPipeline =>
    if s.maintaining then
      { s.server with pipeline := s.server.pipeline.doPipelineMaintenance acquired }
    else s.server
  | .destroying .listen _ => s.server.destroyListener.2
  | _ => s.server

def step (pcfg : ProcessConfig) : ProgramStep → Program cfg → Option (Program cfg)
  | .signal, s => (s.process.step pcfg .signal).map fun process => { s with process }
  | .thread pool t listened iteration, s =>
    if s.passing pool t then s.pass pool t iteration
    else if listened = .failed then none
    else
      (s.process.step pcfg (.thread pool t listened)).map fun process =>
        { s with process }.setPassing pool t (s.passes pool t)
  | .main t bound maintained acquired, s =>
    if s.maintains then some { s with maintaining := true }
    else
      (s.process.step pcfg (.main t bound maintained)).map fun process =>
        { s with process, server := s.maintain acquired, maintaining := false }

def start (pcfg : ProcessConfig) (cfg : ServerConfig) : Program cfg where
  process := .start pcfg
  server := .start cfg
  passing _ _ := false
  maintaining := false

def machine (pcfg : ProcessConfig) (cfg : ServerConfig) : Machine (Program cfg) ProgramStep :=
  ⟨start pcfg cfg, step pcfg⟩

variable {pcfg : ProcessConfig} {s s' : Program cfg}

/-! ## Steps -/

theorem setPassing_self (pool : ThreadPool) (t : Nat) (flag : Bool) :
    (s.setPassing pool t flag).passing pool t = flag := by
  simp [setPassing]

theorem setPassing_other {pool q : ThreadPool} {t u : Nat} (h : ¬ (q = pool ∧ u = t))
    (flag : Bool) : (s.setPassing pool t flag).passing q u = s.passing q u := by
  by_cases hq : q = pool
  · subst hq
    have hu : u ≠ t := fun hu => h ⟨rfl, hu⟩
    simp [setPassing, hu]
  · simp [setPassing, hq]

theorem step_thread {pool : ThreadPool} {t : Nat} {listened : Listened}
    {iteration : Server.Iteration}
    (hstep : s.step pcfg (.thread pool t listened iteration) = some s') :
    (s.passing pool t = true ∧ isPassOf pool (s.process.ids pool t) iteration = true ∧
      ∃ server, Server.step iteration s.server = some server ∧
        s' = { s with server }.setPassing pool t false) ∨
    (s.passing pool t = false ∧ listened ≠ .failed ∧
      ∃ process, s.process.threadStep pcfg pool t listened = some process ∧
        s' = { s with process }.setPassing pool t (s.passes pool t)) := by
  rw [step] at hstep
  by_cases hpassing : s.passing pool t = true
  · rw [if_pos hpassing, pass, Option.ite_none_right_eq_some] at hstep
    obtain ⟨hpass, hstep⟩ := hstep
    obtain ⟨server, hserver, rfl⟩ := Option.map_eq_some_iff.mp hstep
    exact .inl ⟨hpassing, hpass, server, hserver, rfl⟩
  · rw [if_neg hpassing, Option.ite_none_left_eq_some] at hstep
    obtain ⟨hlistens, hstep⟩ := hstep
    obtain ⟨process, hprocess, rfl⟩ := Option.map_eq_some_iff.mp hstep
    exact .inr ⟨Bool.eq_false_iff.mpr hpassing, hlistens, process, hprocess, rfl⟩

theorem step_main {t : Nat} {bound maintained : Bool} {acquired : Stage → Bool}
    (hstep : s.step pcfg (.main t bound maintained acquired) = some s') :
    (s.maintains = true ∧ s' = { s with maintaining := true }) ∨
    (s.maintains = false ∧ ∃ process, s.process.mainStep pcfg t bound maintained = some process ∧
      s' = { s with process, server := s.maintain acquired, maintaining := false }) := by
  rw [step] at hstep
  by_cases hmaintains : s.maintains = true
  · rw [if_pos hmaintains] at hstep
    exact .inl ⟨hmaintains, (Option.some.inj hstep).symm⟩
  · rw [if_neg hmaintains] at hstep
    obtain ⟨process, hprocess, rfl⟩ := Option.map_eq_some_iff.mp hstep
    exact .inr ⟨Bool.eq_false_iff.mpr hmaintains, process, hprocess, rfl⟩

/-! ## The process -/

def processSteps : ProgramStep → Program cfg → List ProcessStep
  | .signal, _ => [.signal]
  | .thread pool t listened _, s => if s.passing pool t then [] else [.thread pool t listened]
  | .main t bound maintained _, s => if s.maintains then [] else [.main t bound maintained]

theorem refines_process (pcfg : ProcessConfig) (cfg : ServerConfig) :
    (machine pcfg cfg).Refines (Process.machine pcfg) Program.process processSteps where
  start := rfl
  step s s' a _ hstep := by
    cases a with
    | signal =>
      cases hstep
      rfl
    | thread pool t listened iteration =>
      rw [processSteps]
      obtain ⟨hpassing, -, server, -, rfl⟩ | ⟨hpassing, -, process, hprocess, rfl⟩ :=
        step_thread hstep
      · rw [if_pos hpassing]
        rfl
      · rw [hpassing, if_neg Bool.false_ne_true]
        exact Machine.run_singleton.trans hprocess
    | main t bound maintained acquired =>
      rw [processSteps]
      obtain ⟨hmaintains, rfl⟩ | ⟨hmaintains, process, hprocess, rfl⟩ := step_main hstep
      · rw [if_pos hmaintains]
        rfl
      · rw [hmaintains, if_neg Bool.false_ne_true]
        exact Machine.run_singleton.trans hprocess

theorem process_reachable (h : (machine pcfg cfg).Reachable s) :
    (Process.machine pcfg).Reachable s.process :=
  (refines_process pcfg cfg).reachable h

theorem inv_of_reachable (h : (machine pcfg cfg).Reachable s) : Process.Inv pcfg s.process :=
  Process.inv_of_reachable (process_reachable h)

theorem kept_of_reachable (h : (machine pcfg cfg).Reachable s) (pool : ThreadPool) :
    s.process.globalExit = false → Process.Kept pcfg s.process pool := by
  refine Machine.Reachable.invariant
    (I := fun s : Program cfg => s.process.globalExit = false → Process.Kept pcfg s.process pool)
    (fun _ => Process.kept_start pcfg pool) ?_ h
  intro s s' a hs hkept hstep hexit'
  cases a with
  | signal =>
    cases hstep
    cases hexit'
  | thread q t listened iteration =>
    obtain ⟨-, -, server, -, rfl⟩ | ⟨-, hlistens, process, hprocess, rfl⟩ := step_thread hstep
    · exact hkept hexit'
    · have hexit := Process.exit_false (a := .thread q t listened) (process_reachable hs) hprocess
        hexit'
      exact (hkept hexit).threadStep hexit (fun _ => hlistens) hprocess
  | main t bound maintained acquired =>
    obtain ⟨-, rfl⟩ | ⟨-, process, hprocess, rfl⟩ := step_main hstep
    · exact hkept hexit'
    · have hexit := Process.exit_false (a := .main t bound maintained) (process_reachable hs)
        hprocess hexit'
      exact (hkept hexit).mainStep (inv_of_reachable hs) hexit hprocess

/-! ## Passes -/

theorem original_of_passes (h : (machine pcfg cfg).Reachable s) {pool : ThreadPool} {t : Nat}
    (hpasses : s.passes pool t = true) :
    s.process.threads pool t = .service ∧ t < (pcfg.size pool).toNat := by
  simp only [passes, Process.isExitAny, Bool.and_eq_true, decide_eq_true_eq, Bool.not_eq_true',
    Bool.or_eq_false_iff] at hpasses
  obtain ⟨hplace, -, hexit⟩ := hpasses
  refine ⟨hplace, ?_⟩
  rw [← (kept_of_reachable h pool hexit).intact.created]
  exact ((inv_of_reachable h).pools pool).lt_created (by simp [hplace])

def PassesInLoop (pcfg : ProcessConfig) (s : Program cfg) : Prop :=
  ∀ pool t, s.passing pool t = true →
    s.process.threads pool t = .service ∧ t < (pcfg.size pool).toNat

theorem PassesInLoop.setPassing (h : PassesInLoop pcfg s) {pool : ThreadPool} {t : Nat}
    {flag : Bool}
    (hflag : flag = true →
      s.process.threads pool t = .service ∧ t < (pcfg.size pool).toNat) :
    PassesInLoop pcfg (s.setPassing pool t flag) := by
  intro q u hpassing
  by_cases hself : q = pool ∧ u = t
  · obtain ⟨rfl, rfl⟩ := hself
    rw [setPassing_self] at hpassing
    exact hflag hpassing
  · rw [setPassing_other hself] at hpassing
    exact h q u hpassing

theorem service_of_mainStep {p p' : Process} (hinv : Process.Inv pcfg p) {t : Nat}
    {bound maintained : Bool} (hstep : p.mainStep pcfg t bound maintained = some p')
    {pool : ThreadPool} {u : Nat} (hservice : p.threads pool u = .service) :
    p'.threads pool u = .service := by
  cases hinv.changed hstep with
  | none _ threads => rw [threads, hservice]
  | started q v _ created threads =>
    have hother : ¬ (pool = q ∧ u = v) := by
      rintro ⟨rfl, rfl⟩
      rw [created] at hservice
      cases hservice
    rw [threads, Process.setThread_other hother, hservice]
  | group _ _ _ _ _ _ _ threads => rw [threads, hservice]
  | prestarted q n group _ _ _ threads =>
    have hother : ¬ (pool = q ∧ u = (p.groups q).created) := by
      rintro ⟨rfl, rfl⟩
      have hfresh := (hinv.pools pool).fresh _ (Nat.le_refl _)
      rw [hfresh] at hservice
      cases hservice
    rw [threads, Process.setThread_other hother, hservice]

theorem passesInLoop_of_reachable (h : (machine pcfg cfg).Reachable s) : PassesInLoop pcfg s := by
  refine Machine.Reachable.invariant nofun ?_ h
  intro s s' a hs hbefore hstep
  cases a with
  | signal =>
    cases hstep
    exact hbefore
  | thread pool t listened iteration =>
    obtain ⟨-, -, server, -, rfl⟩ | ⟨hpassing, -, process, hprocess, rfl⟩ := step_thread hstep
    · have hserved : PassesInLoop pcfg { s with server } := hbefore
      exact hserved.setPassing nofun
    · have hmoved := Process.moved_of_threadStep hprocess
      intro q u hpassing'
      by_cases hself : q = pool ∧ u = t
      · obtain ⟨rfl, rfl⟩ := hself
        rw [setPassing_self] at hpassing'
        obtain ⟨hplace, hlt⟩ := original_of_passes hs hpassing'
        simp only [passes, hplace, decide_true, Bool.true_and, Bool.not_eq_true'] at hpassing'
        simp only [Process.threadStep, hplace, hpassing', Bool.false_eq_true, if_false,
          Option.some.injEq] at hprocess
        exact ⟨hprocess ▸ hplace, hlt⟩
      · rw [setPassing_other hself] at hpassing'
        obtain ⟨hplace, hlt⟩ := hbefore q u hpassing'
        exact ⟨(hmoved.threads_other hself).trans hplace, hlt⟩
  | main t bound maintained acquired =>
    obtain ⟨-, rfl⟩ | ⟨-, process, hprocess, rfl⟩ := step_main hstep
    · exact hbefore
    · intro q u hpassing
      obtain ⟨hplace, hlt⟩ := hbefore q u hpassing
      exact ⟨service_of_mainStep (inv_of_reachable hs) hprocess hplace, hlt⟩

theorem alive_of_passing (h : (machine pcfg cfg).Reachable s) {pool : ThreadPool} {t : Nat}
    (hpassing : s.passing pool t = true) :
    ¬ s.process.isDestroyed pool t ∧ ∀ code, s.process.main ≠ .returned code := by
  obtain ⟨hplace, -⟩ := passesInLoop_of_reachable h pool t hpassing
  have hdestroyed : ¬ s.process.isDestroyed pool t := by
    intro hdestroyed
    have hjoined := (inv_of_reachable h).isJoined_of_isDestroyed hdestroyed
    rw [Process.isJoined, hplace] at hjoined
    rcases hjoined with hjoined | hjoined <;> cases hjoined
  refine ⟨hdestroyed, fun code hcode => hdestroyed ⟨?_, .inr (.inr ⟨code, hcode⟩)⟩⟩
  exact ((inv_of_reachable h).pools pool).lt_created (by simp [hplace])

theorem running_of_mainStep {t : Nat} {bound maintained : Bool} {process : Process}
    (hprocess : s.process.mainStep pcfg t bound maintained = some process) (code : Nat) :
    s.process.main ≠ .returned code := by
  intro hcode
  simp [Process.mainStep, hcode] at hprocess

/-! ## The server -/

/-- What has become of the server: `P` holds of it, until its listener is destroyed. -/
structure Served (P : Server cfg → Prop) (s : Program cfg) : Prop where
  running : (∀ code, s.process.main ≠ .returned code) → P s.server
  released : ∀ code, s.process.main = .returned code →
    ∃ server, P server ∧ s.server = server.destroyListener.2

theorem maintain_cases (s : Program cfg) (acquired : Stage → Bool) :
    s.maintain acquired = s.server ∨
      (s.process.main = .maintainingPipeline ∧
        Server.step (.maintenance acquired) s.server = some (s.maintain acquired)) ∨
      ∃ code, s.process.main = .destroying .listen code ∧
        s.maintain acquired = s.server.destroyListener.2 := by
  unfold maintain
  split
  · rename_i hmain
    split_ifs
    · exact .inr (.inl ⟨hmain, rfl⟩)
    · exact .inl rfl
  · rename_i code hmain
    exact .inr (.inr ⟨code, hmain, rfl⟩)
  · exact .inl rfl

variable {P : Server cfg → Prop}

theorem Served.same (h : Served P s) (hmain : s'.process.main = s.process.main)
    (hserver : s'.server = s.server) : Served P s' :=
  ⟨fun hrunning => hserver ▸ h.running (hmain ▸ hrunning),
    fun code hcode => hserver ▸ h.released code (hmain ▸ hcode)⟩

theorem Served.thread (h : Served P s) {pool : ThreadPool} {t : Nat} {listened : Listened}
    {iteration : Server.Iteration} (hs : (machine pcfg cfg).Reachable s)
    (hstep : s.step pcfg (.thread pool t listened iteration) = some s')
    (hkeeps : s.passing pool t = true → P s.server →
      Server.step iteration s.server = some s'.server → P s'.server) : Served P s' := by
  obtain ⟨hpassing, -, server, hserver, rfl⟩ | ⟨-, -, process, hprocess, rfl⟩ := step_thread hstep
  · obtain ⟨-, hrunning⟩ := alive_of_passing hs hpassing
    refine ⟨fun _ => hkeeps hpassing (h.running hrunning) hserver, fun code hcode => ?_⟩
    exact absurd hcode (hrunning code)
  · exact h.same (Process.moved_of_threadStep hprocess).main rfl

theorem Served.main (h : Served P s) {t : Nat} {bound maintained : Bool} {acquired : Stage → Bool}
    (hstep : s.step pcfg (.main t bound maintained acquired) = some s')
    (hkeeps : s.process.main = .maintainingPipeline → P s.server →
      Server.step (.maintenance acquired) s.server = some s'.server → P s'.server) :
    Served P s' := by
  obtain ⟨-, rfl⟩ | ⟨-, process, hprocess, rfl⟩ := step_main hstep
  · exact h.same rfl rfl
  have hbefore := h.running (running_of_mainStep hprocess)
  constructor
  · intro hrunning'
    have hlisten : ∀ code, s.process.main ≠ .destroying .listen code := by
      intro code hcode
      simp only [Process.mainStep, hcode, Option.ite_none_right_eq_some] at hprocess
      exact hrunning' code (by rw [← Option.some.inj hprocess.2]; rfl)
    rcases s.maintain_cases acquired with hsame | ⟨hmain, hmaintenance⟩ | ⟨code, hmain, -⟩
    · change P (s.maintain acquired)
      rwa [hsame]
    · exact hkeeps hmain hbefore hmaintenance
    · exact absurd hmain (hlisten code)
  · intro code hcode
    have hmain := Process.destroying_of_returned hprocess hcode
    refine ⟨s.server, hbefore, ?_⟩
    simp only [maintain, hmain]

theorem served_start (pcfg : ProcessConfig) (h : P (.start cfg)) : Served P (start pcfg cfg) :=
  ⟨fun _ => h, nofun⟩

theorem served_of_reachable (h : (machine pcfg cfg).Reachable s) :
    Served (Server.machine cfg).Reachable s := by
  refine Machine.Reachable.invariant (served_start pcfg .start) ?_ h
  intro s s' a hs hserved hstep
  cases a with
  | signal =>
    cases hstep
    exact hserved.same rfl rfl
  | thread pool t listened iteration =>
    exact hserved.thread hs hstep fun _ hbefore htaken => .step hbefore trivial htaken
  | main t bound maintained acquired =>
    exact hserved.main hstep fun _ hbefore htaken =>
      .step (a := .maintenance acquired) hbefore trivial htaken

/-- The passes of the services are whole steps, taken one after another, with the test of the
exit flags a step before. Then the process of the program is one of a run, and so is its
server until `main` returns. No thread is let make a pass when `main` has left its loop; one
that has been let make it is in the loop of its service, one of those that were made first,
and not destroyed. -/
theorem runs_process_and_server (h : (machine pcfg cfg).Reachable s) :
    (Process.machine pcfg).Reachable s.process ∧
    ((∀ code, s.process.main ≠ .returned code) → (Server.machine cfg).Reachable s.server) ∧
    ∀ pool t,
      (s.passes pool t = true → Process.hasLeftLoop s.process.main = false) ∧
      (s.passing pool t = true →
        s.process.threads pool t = .service ∧ t < (pcfg.size pool).toNat ∧
        ¬ s.process.isDestroyed pool t ∧ ∀ code, s.process.main ≠ .returned code) := by
  refine ⟨process_reachable h, (served_of_reachable h).running, fun pool t =>
    ⟨fun hpasses => ?_, fun hpassing => ?_⟩⟩
  · rw [Bool.eq_false_iff]
    intro hleft
    have hexit := (inv_of_reachable h).globalExit hleft
    simp [passes, Process.isExitAny, hexit] at hpasses
  · obtain ⟨hplace, hlt⟩ := passesInLoop_of_reachable h pool t hpassing
    exact ⟨hplace, hlt, alive_of_passing h hpassing⟩

/-! ## The descriptors -/

def accepts : ProgramStep → Program cfg → List Int
  | .thread pool t _ iteration, s =>
    if s.passing pool t then Server.accepts iteration s.server else []
  | .signal, _ | .main _ _ _ _, _ => []

def closes : ProgramStep → Program cfg → List Int
  | .thread pool t _ iteration, s =>
    if s.passing pool t then Server.closes iteration s.server else []
  | .main _ _ _ _, s =>
    match s.process.main with
    | .destroying .listen _ => Server.closedFds s.server.destroyListener.1
    | _ => []
  | .signal, _ => []

theorem balanced (pcfg : ProcessConfig) (hlistener : 0 ≤ cfg.listenerFd) :
    (machine pcfg cfg).Balanced (fun s => s.server.openFds) accepts closes := by
  intro s s' a hs hstep
  have hserved := served_of_reachable hs
  have hsame : s'.server.openFds = s.server.openFds →
      (s.server.openFds ++ []).Perm ([] ++ s'.server.openFds) := by
    intro hopen
    rw [hopen, List.append_nil]
    exact .refl _
  cases a with
  | signal =>
    cases hstep
    exact hsame rfl
  | thread pool t listened iteration =>
    simp only [accepts, closes]
    obtain ⟨hpassing, -, server, hserver, rfl⟩ | ⟨hpassing, -, process, -, rfl⟩ :=
      step_thread hstep
    · rw [if_pos hpassing, if_pos hpassing]
      obtain ⟨-, hrunning⟩ := alive_of_passing hs hpassing
      exact Server.balanced cfg _ _ iteration (hserved.running hrunning) hserver
    · rw [hpassing, if_neg Bool.false_ne_true, if_neg Bool.false_ne_true]
      exact hsame rfl
  | main t bound maintained acquired =>
    obtain ⟨hmaintains, rfl⟩ | ⟨-, process, hprocess, rfl⟩ := step_main hstep
    · have hmain : s.process.main = .maintainingPipeline := by
        simp only [maintains, Bool.and_eq_true, decide_eq_true_eq] at hmaintains
        exact hmaintains.1.1
      simp only [accepts, closes, hmain]
      exact hsame rfl
    · have hledger := Server.ledger_of_reachable (hserved.running (running_of_mainStep hprocess))
      simp only [accepts, closes]
      split
      · rename_i code hmain
        simp only [maintain, hmain, List.append_nil]
        exact (hledger.destroyListener hlistener).2.1
      · rename_i hmain
        have hopen : (s.maintain acquired).openFds = s.server.openFds := by
          unfold maintain
          split
          · split_ifs <;> rfl
          · rename_i code heq
            exact absurd heq (hmain code)
          · rfl
        rw [hopen, List.append_nil]
        exact .refl _

/-- When `main` has returned, every thread has been joined, and every descriptor that was
accepted has been closed as often, but for a client's descriptor 0. -/
theorem descriptors_closed (hlistener : 0 ≤ cfg.listenerFd) {run : List ProgramStep} {code : Nat}
    (hrun : (machine pcfg cfg).run run (start pcfg cfg) = some s)
    (hmain : s.process.main = .returned code) :
    (∀ pool t, s.process.isJoined pool t) ∧
    (cfg.listenerFd :: (machine pcfg cfg).collect accepts run (start pcfg cfg)).Perm
      ((machine pcfg cfg).collect closes run (start pcfg cfg) ++ s.server.openFds) ∧
    ∀ fd ∈ s.server.openFds, fd = 0 := by
  have hreachable : (machine pcfg cfg).Reachable s := Machine.reachable_of_run hrun
  have hinv := Process.inv_of_reachable (process_reachable hreachable)
  have hat := hinv.place
  simp only [Process.At, hmain] at hat
  obtain ⟨server, hserver, hdestroyed⟩ := (served_of_reachable hreachable).released code hmain
  have hledger := Server.ledger_of_reachable hserver
  obtain ⟨-, -, hleft⟩ := hledger.destroyListener hlistener
  refine ⟨hat.2, (balanced pcfg hlistener).run .start hrun, fun fd hfd => ?_⟩
  rw [hdestroyed] at hfd
  exact of_decide_eq_true (List.mem_filter.mp (hleft.mem_iff.mp hfd)).2

/-! ## A run -/

def idle : ProcessStep → ProgramStep
  | .signal => .signal
  | .thread pool t listened => .thread pool t listened (.maintenance fun _ => true)
  | .main t bound maintained => .main t bound maintained fun _ => true

def opening : List ProgramStep :=
  List.map idle <|
    List.replicate 9 (.main 0 true true) ++ List.replicate 2 (.thread .listen 0 .ok)

def serving (pool : ThreadPool) (t : Nat) (iteration : Server.Iteration) : List ProgramStep :=
  [idle (.thread pool t .ok), .thread pool t .ok iteration]

def connected : List ProgramStep :=
  opening ++ Server.connect.flatMap (serving .listen 0)

def closing : List ProgramStep :=
  List.map idle <|
    [.signal, .thread .listen 0 .ok] ++ Process.stopped ++ List.replicate 4 (.main 0 true true)

theorem runs_process_and_server_opening :
    ∃ s : Program Server.shipped, (machine Process.single Server.shipped).run
        (opening ++ [idle (.thread .listen 0 .ok), .signal])
        (start Process.single Server.shipped) = some s ∧
      s.passing .listen 0 = true ∧ s.process.globalExit = true ∧
      s.process.threads .listen 0 = .service ∧ ¬ s.process.isDestroyed .listen 0 := by
  have hrun : ((machine Process.single Server.shipped).run
      (opening ++ [idle (.thread .listen 0 .ok), .signal])
      (start Process.single Server.shipped)).map
        (fun s => (s.passing .listen 0, s.process.globalExit)) = some (true, true) := by
    decide +kernel
  obtain ⟨s, hs, hstate⟩ := Option.map_eq_some_iff.mp hrun
  obtain ⟨hpassing, hexit⟩ := Prod.mk.inj hstate
  obtain ⟨-, -, hpasses⟩ := runs_process_and_server (Machine.reachable_of_run hs)
  obtain ⟨hplace, -, halive, -⟩ := (hpasses .listen 0).2 hpassing
  exact ⟨s, hs, hpassing, hexit, hplace, halive⟩

theorem descriptors_closed_connected :
    ∃ s : Program Server.shipped, (machine Process.single Server.shipped).run
        (connected ++ closing) (start Process.single Server.shipped) = some s ∧
      s.process.main = .returned 0 ∧
      ((machine Process.single Server.shipped).collect closes (connected ++ closing)
        (start Process.single Server.shipped) ++ s.server.openFds).Perm [3, 4] := by
  have hrun : ((machine Process.single Server.shipped).run (connected ++ closing)
      (start Process.single Server.shipped)).map (fun s => s.process.main) =
        some (.returned 0) := by decide +kernel
  have haccepts : (machine Process.single Server.shipped).collect accepts (connected ++ closing)
      (start Process.single Server.shipped) = [4] := by decide +kernel
  obtain ⟨s, hs, hmain⟩ := Option.map_eq_some_iff.mp hrun
  obtain ⟨-, hperm, -⟩ := descriptors_closed (by decide) hs hmain
  rw [haccepts] at hperm
  exact ⟨s, hs, hmain, hperm.symm⟩

end Program

end MultiplexServer

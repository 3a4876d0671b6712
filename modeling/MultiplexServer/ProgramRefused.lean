import MultiplexServer.Program

/-! A program whose exit flag is set before its pools are started: a signal has come, or the
listener has been refused its address or its port and has said so. All threads are started
and stopped again, but no service makes a pass, and the server stays as it was made. -/

namespace MultiplexServer

namespace Process

variable {cfg : ProcessConfig} {s s' : Process} {pool : ThreadPool} {t : Nat}

def isServing : ServicePc → Bool
  | .connectListen | .service => true
  | .created | .serviceLoop | .leaving | .returning | .ended => false

structure Unserved (cfg : ProcessConfig) (s : Process) : Prop where
  globalExit : s.main ≠ .constructing → s.globalExit = true
  main : isMaintaining s.main = false
  threads : ∀ pool t, isServing (s.threads pool t) = false
  created : ∀ pool, (s.groups pool).created = (cfg.size pool).toNat

theorem unserved_start (cfg : ProcessConfig) : Unserved cfg (start cfg) :=
  ⟨fun h => absurd rfl h, rfl, fun _ _ => rfl, fun _ => rfl⟩

/-! ## Threads -/

theorem isServing_threadStep (hexit : s.globalExit = true)
    (hbefore : isServing (s.threads pool t) = false) {listened : Listened}
    (hstep : s.threadStep cfg pool t listened = some s') :
    isServing (s'.threads pool t) = false := by
  have hany : s.isExitAny pool t = true := by rw [isExitAny, hexit, Bool.or_true]
  unfold threadStep at hstep
  cases hpc : s.threads pool t with
  | connectListen | service => simp [hpc, isServing] at hbefore
  | created | ended => simp [hpc] at hstep
  | serviceLoop =>
    simp only [hpc, hany, if_true, Option.some.injEq] at hstep
    rw [← hstep, setThread_self]
    rfl
  | leaving =>
    simp only [hpc, Option.map_eq_some_iff] at hstep
    obtain ⟨group, -, rfl⟩ := hstep
    rw [setThread_self]
    rfl
  | returning =>
    simp only [hpc, Option.some.injEq] at hstep
    rw [← hstep, setThread_self]
    rfl

theorem Unserved.threadStep (h : Unserved cfg s) (hinv : Inv cfg s) {listened : Listened}
    (hstep : s.threadStep cfg pool t listened = some s') : Unserved cfg s' := by
  have hmoved := moved_of_threadStep hstep
  have hexit : s.globalExit = true := by
    refine h.globalExit fun hmain => hmoved.notCreated ?_
    have hat := hinv.place
    simp only [At, hmain] at hat
    exact hat pool t
  refine ⟨fun _ => hmoved.globalExit.trans hexit, hmoved.main ▸ h.main, fun q u => ?_, fun q => ?_⟩
  · by_cases hself : q = pool ∧ u = t
    · obtain ⟨rfl, rfl⟩ := hself
      exact isServing_threadStep hexit (h.threads q u) hstep
    · rw [hmoved.threads_other hself]
      exact h.threads q u
  · obtain hsame | ⟨rfl, hgroup⟩ := hmoved.groups_cases q
    · rw [hsame]
      exact h.created q
    · rw [step_setNotAlive hgroup]
      exact h.created q

/-! ## `main` -/

theorem looping_of_maintaining {bound maintained : Bool}
    (hstep : s.mainStep cfg t bound maintained = some s')
    (hbefore : isMaintaining s.main = false) (hafter : isMaintaining s'.main = true) :
    s.main = .looping ∧ s.globalExit = false := by
  cases (leads_of_mainStep hstep).1 with
  | looping before after =>
    rcases after with ⟨-, hstopping⟩ | ⟨hexit, -⟩
    · exact absurd ⟨hafter, hstopping⟩ (stations_apart _).2.2
    · exact ⟨before, hexit⟩
  | maintaining before =>
    rw [hbefore] at before
    cases before
  | starting _ after =>
    rcases after with hstarting | hlooping
    · exact absurd ⟨hstarting, hafter⟩ (stations_apart _).1
    · rw [hlooping] at hafter
      cases hafter
  | stopping _ after =>
    rcases after with hstopping | ⟨code, hdestroying⟩
    · exact absurd ⟨hafter, hstopping⟩ (stations_apart _).2.2
    · rw [hdestroying] at hafter
      cases hafter
  | failing _ _ after | destroying _ _ _ _ after | returning _ _ after =>
    rw [after] at hafter
    cases hafter

theorem Unserved.mainStep (h : Unserved cfg s) (hinv : Inv cfg s) {bound maintained : Bool}
    (hflag : s.main = .constructing → (s.globalExit || cfg.refuses bound) = true)
    (hstep : s.mainStep cfg t bound maintained = some s') : Unserved cfg s' := by
  have hexit' : s'.globalExit = true := by
    by_cases hmain : s.main = .constructing
    · simp only [Process.mainStep, hmain, Option.some.injEq] at hstep
      exact hstep ▸ startPool_globalExit (hflag hmain)
    · exact (leads_of_mainStep hstep).2 (h.globalExit hmain)
  have hmain' : isMaintaining s'.main = false := by
    rw [Bool.eq_false_iff]
    intro hafter
    obtain ⟨hlooping, hexit⟩ := looping_of_maintaining hstep h.main hafter
    rw [h.globalExit (by simp [hlooping])] at hexit
    cases hexit
  cases hinv.changed hstep with
  | none groups threads =>
    exact ⟨fun _ => hexit', hmain', threads ▸ h.threads, groups ▸ h.created⟩
  | started q u groups _ threads =>
    refine ⟨fun _ => hexit', hmain', fun pool t => ?_, groups ▸ h.created⟩
    rw [threads]
    by_cases hself : pool = q ∧ t = u
    · obtain ⟨rfl, rfl⟩ := hself
      rw [setThread_self]
      rfl
    · rw [setThread_other hself]
      exact h.threads pool t
  | group q a group _ _ created groups threads =>
    refine ⟨fun _ => hexit', hmain', threads ▸ h.threads, fun pool => ?_⟩
    rw [groups]
    by_cases hpool : pool = q
    · subst hpool
      rw [setGroup_self, created]
      exact h.created pool
    · rw [setGroup_other hpool]
      exact h.created pool
  | prestarted q n group refilling =>
    have houtside : s.main ≠ .inGroup q := by
      intro hgroup
      have hmain := h.main
      rw [hgroup] at hmain
      cases hmain
    rw [hinv.idle q houtside] at refilling
    cases refilling

end Process

namespace Program

variable {cfg : ServerConfig} {pcfg : ProcessConfig} {s s' : Program cfg}

/-- When the listener is made, a signal has come or it is refused what it asks for. -/
def FlaggedAtStart (pcfg : ProcessConfig) : ProgramStep → Program cfg → Prop
  | .main _ bound _ _, s =>
    s.process.main = .constructing → (s.process.globalExit || pcfg.refuses bound) = true
  | .signal, _ | .thread _ _ _ _, _ => True

instance (pcfg : ProcessConfig) (a : ProgramStep) (s : Program cfg) :
    Decidable (FlaggedAtStart pcfg a s) :=
  match a with
  | .main _ _ _ _ => inferInstanceAs (Decidable (_ → _))
  | .signal | .thread _ _ _ _ => inferInstanceAs (Decidable True)

theorem passes_of_unserved (h : Process.Unserved pcfg s.process) (pool : ThreadPool) (t : Nat) :
    s.passes pool t = false := by
  have hserving := h.threads pool t
  cases hpc : s.process.threads pool t with
  | connectListen | service => simp [hpc, Process.isServing] at hserving
  | created | serviceLoop | leaving | returning | ended => simp [passes, hpc]

theorem passing_of_unserved (h : Process.Unserved pcfg s.process)
    (hs : (machine pcfg cfg).Reachable s) (pool : ThreadPool) (t : Nat) :
    s.passing pool t = false := by
  rw [Bool.eq_false_iff]
  intro hpassing
  have hserving := h.threads pool t
  rw [(passesInLoop_of_reachable hs pool t hpassing).1] at hserving
  cases hserving

theorem unserved_of_flagged (h : (machine pcfg cfg).ReachableUnder (FlaggedAtStart pcfg) s) :
    Process.Unserved pcfg s.process ∧ Served (· = .start cfg) s := by
  suffices hall : (machine pcfg cfg).Reachable s ∧ Process.Unserved pcfg s.process ∧
    Served (· = .start cfg) s from hall.2
  refine Machine.ReachableUnder.invariant
    (I := fun s : Program cfg => (machine pcfg cfg).Reachable s ∧
      Process.Unserved pcfg s.process ∧ Served (· = .start cfg) s)
    ⟨.start, Process.unserved_start pcfg, served_start pcfg rfl⟩ ?_ h
  rintro s s' a ⟨hs, hunserved, hserved⟩ hflag hstep
  have hinv := inv_of_reachable hs
  refine ⟨.step hs trivial hstep, ?_⟩
  cases a with
  | signal =>
    cases hstep
    exact ⟨⟨fun _ => rfl, hunserved.main, hunserved.threads, hunserved.created⟩,
      hserved.same rfl rfl⟩
  | thread pool t listened iteration =>
    have hidle := passing_of_unserved hunserved hs pool t
    constructor
    · obtain ⟨hpassing, -⟩ | ⟨-, -, process, hprocess, rfl⟩ := step_thread hstep
      · exact absurd hpassing (Bool.eq_false_iff.mp hidle)
      · exact hunserved.threadStep hinv hprocess
    · exact hserved.thread hs hstep fun hpassing => absurd hpassing (Bool.eq_false_iff.mp hidle)
  | main t bound maintained acquired =>
    have houtside : s.process.main ≠ .maintainingPipeline := by
      intro hmain
      have hmaintaining := hunserved.main
      rw [hmain] at hmaintaining
      cases hmaintaining
    constructor
    · obtain ⟨hmaintains, -⟩ | ⟨-, process, hprocess, rfl⟩ := step_main hstep
      · simp [maintains, houtside] at hmaintains
      · exact hunserved.mainStep hinv hflag hprocess
    · exact hserved.main hstep fun hmain => absurd hmain houtside

/-- In a program that is flagged at its start no service comes to a pass, `main` never comes to
the maintenance and no thread is replaced, in any interleaving: until the listener is
destroyed the connections, the pipes and the open descriptors are those with which the
server was made. -/
theorem serves_nothing (h : (machine pcfg cfg).ReachableUnder (FlaggedAtStart pcfg) s) :
    (s.process.main ≠ .constructing → s.process.globalExit = true) ∧
    Process.isMaintaining s.process.main = false ∧
    (∀ pool t, s.passes pool t = false ∧ s.passing pool t = false) ∧
    (∀ pool, (s.process.groups pool).created = (pcfg.size pool).toNat) ∧
    ((∀ code, s.process.main ≠ .returned code) → s.server = .start cfg) ∧
    ∀ code, s.process.main = .returned code → s.server = (Server.start cfg).destroyListener.2 := by
  obtain ⟨hunserved, hserved⟩ := unserved_of_flagged h
  refine ⟨hunserved.globalExit, hunserved.main, fun pool t => ⟨passes_of_unserved hunserved pool t,
    passing_of_unserved hunserved h.reachable pool t⟩, hunserved.created, hserved.running,
    fun code hcode => ?_⟩
  obtain ⟨server, rfl, hdestroyed⟩ := hserved.released code hcode
  exact hdestroyed

def misnamed : ProcessConfig := { Process.single with bindIp := Server.ascii "localhost" }

def unserved : List ProgramStep :=
  List.map idle <|
    List.replicate 9 (.main 0 true true) ++ Process.stopped ++
      List.replicate 4 (.main 0 true true)

theorem serves_nothing_misnamed :
    ∃ s : Program Server.shipped, (machine misnamed Server.shipped).runUnder
        (FlaggedAtStart misnamed) unserved (start misnamed Server.shipped) = some s ∧
      s.process.main = .returned 0 ∧
      s.server = (Server.start Server.shipped).destroyListener.2 := by
  have hrun : ((machine misnamed Server.shipped).runUnder (FlaggedAtStart misnamed) unserved
      (start misnamed Server.shipped)).map (fun s => s.process.main) = some (.returned 0) := by
    decide +kernel
  obtain ⟨s, hs, hmain⟩ := Option.map_eq_some_iff.mp hrun
  obtain ⟨-, -, -, -, -, hreleased⟩ := serves_nothing (Machine.reachableUnder_of_run hs)
  exact ⟨s, hs, hmain, hreleased 0 hmain⟩

end Program

end MultiplexServer

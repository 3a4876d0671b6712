import MultiplexServer.Library.Machine
import MultiplexServer.ServerPipeline

/-! The loop of `main`, which maintains the process until it sees an exit flag or a
maintenance fails. Each pipe has a count of its failed attempts; what the callers are told
is whether any attempt of this call has failed. -/

namespace MultiplexServer

def maintenanceWarningCount : Int := 10

structure TasksMaintenance where
  tasks : Pipe Ref
  failedCount : Int
  failureLimitExceeded : Bool
  result : Bool

def ServerPipeline.doTasksMaintenance (removePredicate : Ref → Bool) (acquired : Bool)
    (tasks : Pipe Ref) (failedCount : Int) (failureLimitExceeded : Bool) : TasksMaintenance :=
  let maintained := tasks.doPipeMaintenance acquired removePredicate
  if !maintained.1 then
    if failedCount + 1 > maintenanceWarningCount then ⟨maintained.2, 0, true, false⟩
    else ⟨maintained.2, failedCount + 1, failureLimitExceeded, false⟩
  else ⟨maintained.2, 0, failureLimitExceeded, true⟩

/-- What the attempts of one maintenance meet: what other threads do to the pipeline before
each of them, and whether the mutex is obtained in time. -/
structure Contention where
  others : Stage → ServerPipeline → ServerPipeline
  acquired : Stage → Bool

/-- The public `do_pipeline_maintenance` between two attempts, with all attempts on the
pipes so far and how they ended, the last one first. -/
structure PipelineMaintenance where
  pipeline : ServerPipeline
  failedCount : Stage → Int
  attempts : List (Stage × Bool)
  failureLimitExceeded : Bool
  result : Bool

namespace PipelineMaintenance

def attempt (c : Contention) (m : PipelineMaintenance) (stage : Stage) : PipelineMaintenance :=
  let p := c.others stage m.pipeline
  let done := ServerPipeline.doTasksMaintenance
    (fun r => (p.elements r).completedPredicate stage) (c.acquired stage) (p.pipe stage)
    (m.failedCount stage) m.failureLimitExceeded
  { pipeline := { p with pipe := Function.update p.pipe stage done.tasks }
    failedCount := Function.update m.failedCount stage done.failedCount
    attempts := (stage, done.result) :: m.attempts
    failureLimitExceeded := done.failureLimitExceeded
    result := done.result && m.result }

def pipes : List Stage := [.request, .datamodel, .response, .completed]

end PipelineMaintenance

inductive ThreadPool where
  | listen
  | reader
  | datamodel
  | writer
  deriving DecidableEq

/-- What one pass of the loop meets: the exit flags as each check reads them, what the
maintenance of the pools returns, and what happens around the pipes. -/
structure Round where
  exitBeforeRound : Bool
  exitBeforePool : ThreadPool → Bool
  poolMaintained : ThreadPool → Bool
  exitBeforePipeline : Bool
  contention : Contention

structure MainLoop where
  pipeline : ServerPipeline
  failedCount : Stage → Int
  attempts : List (Stage × Bool)
  looping : Bool
  exitFlagRaised : Bool

namespace MainLoop
open PipelineMaintenance

def start : MainLoop := ⟨.new, fun _ => 0, [], true, false⟩

def doPipelineMaintenance (c : Contention) (s : MainLoop) : PipelineMaintenance :=
  pipes.foldl (attempt c) ⟨s.pipeline, s.failedCount, s.attempts, false, true⟩

def pools : List ThreadPool := [.listen, .reader, .datamodel, .writer]

/-- An exit flag returns what has been found so far. -/
def maintainPool (round : Round) (result : Bool) (pool : ThreadPool) : Except Bool Bool :=
  if round.exitBeforePool pool then .error result
  else if !round.poolMaintained pool then .ok false
  else .ok result

def doProcessMaintenance (round : Round) (s : MainLoop) : Bool × MainLoop :=
  match pools.foldlM (maintainPool round) true with
  | .error result => (result, s)
  | .ok result =>
    if round.exitBeforePipeline then (result, s)
    else
      let m := s.doPipelineMaintenance round.contention
      (if !m.result then false else result,
        { s with pipeline := m.pipeline, failedCount := m.failedCount, attempts := m.attempts })

def pass (round : Round) (s : MainLoop) : Option MainLoop :=
  if !s.looping then none
  else if round.exitBeforeRound then some { s with looping := false }
  else
    let maintained := s.doProcessMaintenance round
    if !maintained.1 then some { maintained.2 with looping := false, exitFlagRaised := true }
    else some maintained.2

def machine : Machine MainLoop Round := ⟨start, pass⟩

def failedInARow (attempts : List (Stage × Bool)) (stage : Stage) : Nat :=
  ((attempts.filter (·.1 = stage)).takeWhile (!·.2)).length

def countAfter (failedCount : Int) : Bool → Int
  | true => 0
  | false => if failedCount + 1 > maintenanceWarningCount then 0 else failedCount + 1

/-- Every pipe has been maintained once, each with its own outcome, and each count depends
on that only. -/
structure Maintained (s t : MainLoop) (outcome : Stage → Bool) : Prop where
  attempts : t.attempts = (pipes.map fun stage => (stage, outcome stage)).reverse ++ s.attempts
  failedCount : ∀ stage, t.failedCount stage = countAfter (s.failedCount stage) (outcome stage)

structure ReachesPipeline (round : Round) (s : MainLoop) : Prop where
  looping : s.looping = true
  atRound : round.exitBeforeRound = false
  atPools : ∀ pool ∈ pools, round.exitBeforePool pool = false
  atPipeline : round.exitBeforePipeline = false

/-- A pass raises the flag only after more failures in a row than are tolerated, and
maintains the pipes independently of each other. -/
structure Tolerates (round : Round) (s : MainLoop) : Prop where
  raises : ∀ t, machine.step round s = some t → t.exitFlagRaised = true →
    ∃ stage, maintenanceWarningCount < failedInARow t.attempts stage
  maintains : ReachesPipeline round s → ∀ t, machine.step round s = some t →
    ∃ outcome, Maintained s t outcome

def Unhindered (c : Contention) : List Stage → PipelineMaintenance → Prop
  | [], _ => True
  | stage :: left, m =>
    (((c.others stage m.pipeline).pipe stage).isEmpty = true ∨ c.acquired stage = true) ∧
      Unhindered c left (m.attempt c stage)

def NoAttemptFails (round : Round) (s : MainLoop) : Prop :=
  ReachesPipeline round s →
    Unhindered round.contention pipes ⟨s.pipeline, s.failedCount, s.attempts, false, true⟩

/-! ## One attempt -/

theorem doPipeMaintenance_fst (tasks : Pipe Ref) (acquired : Bool) (removePredicate : Ref → Bool) :
    (tasks.doPipeMaintenance acquired removePredicate).1 = (tasks.isEmpty || acquired) := by
  unfold Pipe.doPipeMaintenance
  cases tasks.isEmpty <;> cases acquired <;> cases tasks.elements.isEmpty <;> rfl

theorem doTasksMaintenance_spec (removePredicate : Ref → Bool) (acquired : Bool)
    (tasks : Pipe Ref) (failedCount : Int) (failureLimitExceeded : Bool) :
    let done := ServerPipeline.doTasksMaintenance removePredicate acquired tasks failedCount
      failureLimitExceeded
    done.result = (tasks.isEmpty || acquired) ∧
      done.failedCount = countAfter failedCount (tasks.isEmpty || acquired) ∧
      done.tasks = (tasks.doPipeMaintenance acquired removePredicate).2 := by
  simp only [ServerPipeline.doTasksMaintenance]
  rw [← doPipeMaintenance_fst tasks acquired removePredicate]
  cases (tasks.doPipeMaintenance acquired removePredicate).1 with
  | true => exact ⟨rfl, rfl, rfl⟩
  | false =>
    rw [Bool.not_false, if_pos rfl, countAfter]
    split_ifs
    · exact ⟨rfl, rfl, rfl⟩
    · exact ⟨rfl, rfl, rfl⟩

section Attempt

variable (c : Contention) (m : PipelineMaintenance) (stage : Stage)

def obtained : Bool :=
  ((c.others stage m.pipeline).pipe stage).isEmpty || c.acquired stage

theorem attempt_attempts :
    (m.attempt c stage).attempts = (stage, obtained c m stage) :: m.attempts := by
  simp only [attempt, doTasksMaintenance_spec, obtained]

theorem attempt_result : (m.attempt c stage).result = (obtained c m stage && m.result) := by
  simp only [attempt, doTasksMaintenance_spec, obtained]

theorem attempt_failedCount :
    (m.attempt c stage).failedCount =
      Function.update m.failedCount stage
        (countAfter (m.failedCount stage) (obtained c m stage)) := by
  simp only [attempt, doTasksMaintenance_spec, obtained]

end Attempt

/-! ## One maintenance of the pipes -/

theorem unhindered_iff (c : Contention) (stages : List Stage) (m : PipelineMaintenance) :
    (stages.foldl (attempt c) m).result = true ↔ m.result = true ∧ Unhindered c stages m := by
  induction stages generalizing m with
  | nil => simp [Unhindered]
  | cons stage stages ih =>
    rw [List.foldl_cons, ih, attempt_result, Unhindered, Bool.and_eq_true, obtained,
      Bool.or_eq_true]
    tauto

theorem foldl_attempt (c : Contention) (stages : List Stage) (h : stages.Nodup)
    (m : PipelineMaintenance) :
    ∃ outcome : Stage → Bool,
      (stages.foldl (attempt c) m).attempts =
        (stages.map fun stage => (stage, outcome stage)).reverse ++ m.attempts ∧
      ∀ stage, (stages.foldl (attempt c) m).failedCount stage =
        if stage ∈ stages then countAfter (m.failedCount stage) (outcome stage)
        else m.failedCount stage := by
  induction stages generalizing m with
  | nil => exact ⟨fun _ => true, rfl, fun stage => rfl⟩
  | cons first stages ih =>
    obtain ⟨hfirst, hstages⟩ := List.nodup_cons.mp h
    obtain ⟨outcome, hattempts, hcount⟩ := ih hstages (m.attempt c first)
    have hsame : ∀ stage ∈ stages,
        Function.update outcome first (obtained c m first) stage = outcome stage := by
      intro stage hstage
      have hne : stage ≠ first := fun heq => hfirst (heq ▸ hstage)
      exact Function.update_of_ne hne _ _
    refine ⟨Function.update outcome first (obtained c m first), ?_, fun stage => ?_⟩
    · rw [List.foldl_cons, hattempts, attempt_attempts, List.map_cons, List.reverse_cons,
        List.append_assoc, List.singleton_append, Function.update_self]
      congr 2
      exact List.map_congr_left fun stage hstage => by rw [hsame stage hstage]
    · rw [List.foldl_cons, hcount, attempt_failedCount]
      by_cases hstage : stage = first
      · subst hstage
        simp [hfirst]
      · simp [hstage]

theorem foldl_attempt_clean (c : Contention) (stages : List Stage) (m : PipelineMaintenance)
    (h : (stages.foldl (attempt c) m).result = true) (hclean : ∀ a ∈ m.attempts, a.2 = true) :
    ∀ a ∈ (stages.foldl (attempt c) m).attempts, a.2 = true := by
  induction stages generalizing m with
  | nil => exact hclean
  | cons first stages ih =>
    rw [List.foldl_cons] at h ⊢
    refine ih (m.attempt c first) h ?_
    have hresult := ((unhindered_iff c stages _).mp h).1
    rw [attempt_result, Bool.and_eq_true] at hresult
    rw [attempt_attempts, List.forall_mem_cons]
    exact ⟨hresult.1, hclean⟩

theorem doPipelineMaintenance_alone (s : MainLoop) (acquired : Stage → Bool) :
    (s.doPipelineMaintenance ⟨fun _ p => p, acquired⟩).pipeline =
      s.pipeline.doPipelineMaintenance acquired := by
  simp only [doPipelineMaintenance, pipes, List.foldl_cons, List.foldl_nil, attempt,
    doTasksMaintenance_spec, ServerPipeline.doPipelineMaintenance]
  congr 1
  funext stage
  cases stage <;> rfl

theorem pipes_nodup : pipes.Nodup := by decide

theorem mem_pipes (stage : Stage) : stage ∈ pipes := by
  cases stage <;> decide

/-! ## One pass -/

theorem maintainPools_of_no_exit (round : Round) (left : List ThreadPool) (result : Bool)
    (h : ∀ pool ∈ left, round.exitBeforePool pool = false) :
    ∃ ok, left.foldlM (maintainPool round) result = .ok ok ∧
      ((∀ pool, round.poolMaintained pool = true) → ok = result) := by
  induction left generalizing result with
  | nil => exact ⟨result, rfl, fun _ => rfl⟩
  | cons pool left ih =>
    rw [List.forall_mem_cons] at h
    cases hpool : round.poolMaintained pool with
    | true =>
      obtain ⟨ok, hok, hresult⟩ := ih result h.2
      refine ⟨ok, ?_, hresult⟩
      rw [List.foldlM_cons, maintainPool, h.1, hpool]
      exact hok
    | false =>
      obtain ⟨ok, hok, -⟩ := ih false h.2
      refine ⟨ok, ?_, fun hall => absurd (hall pool) (by rw [hpool]; nofun)⟩
      rw [List.foldlM_cons, maintainPool, h.1, hpool]
      exact hok

theorem maintainPools_of_exit (round : Round) (left : List ThreadPool)
    (hpools : ∀ pool, round.poolMaintained pool = true)
    (h : ¬ ∀ pool ∈ left, round.exitBeforePool pool = false) :
    left.foldlM (maintainPool round) true = .error true := by
  induction left with
  | nil => exact absurd (List.forall_mem_nil _) h
  | cons pool left ih =>
    rw [List.foldlM_cons, maintainPool, hpools]
    cases hexit : round.exitBeforePool pool with
    | true => rfl
    | false => exact ih fun hleft => h (List.forall_mem_cons.mpr ⟨hexit, hleft⟩)

variable {round : Round} {s t : MainLoop}

def continued (s : MainLoop) (m : PipelineMaintenance) (ok : Bool) : MainLoop :=
  ⟨m.pipeline, m.failedCount, m.attempts, m.result && ok, s.exitFlagRaised || !(m.result && ok)⟩

theorem ReachesPipeline.pass_eq (h : ReachesPipeline round s) :
    ∃ ok, ((∀ pool, round.poolMaintained pool = true) → ok = true) ∧
      pass round s = some (s.continued (s.doPipelineMaintenance round.contention) ok) := by
  obtain ⟨ok, hok, hresult⟩ := maintainPools_of_no_exit round pools true h.atPools
  refine ⟨ok, hresult, ?_⟩
  simp only [pass, doProcessMaintenance, h.looping, h.atRound, h.atPipeline, hok, continued]
  cases (s.doPipelineMaintenance round.contention).result <;> cases ok <;> simp

theorem exitFlagRaised_continued (h : s.exitFlagRaised = false) (m : PipelineMaintenance)
    (ok : Bool) : (s.continued m ok).exitFlagRaised = !(m.result && ok) := by
  rw [continued, h, Bool.false_or]

theorem doPipelineMaintenance_result :
    (s.doPipelineMaintenance round.contention).result = true ↔
      Unhindered round.contention pipes
        ⟨s.pipeline, s.failedCount, s.attempts, false, true⟩ :=
  (unhindered_iff _ _ _).trans (and_iff_right rfl)

theorem doProcessMaintenance_of_not_reaches (h : ¬ ReachesPipeline round s)
    (hpools : ∀ pool, round.poolMaintained pool = true) (hlooping : s.looping = true)
    (hround : round.exitBeforeRound = false) : s.doProcessMaintenance round = (true, s) := by
  unfold doProcessMaintenance
  by_cases hexit : ∀ pool ∈ pools, round.exitBeforePool pool = false
  · obtain ⟨ok, hok, hresult⟩ := maintainPools_of_no_exit round pools true hexit
    have hpipeline : round.exitBeforePipeline = true :=
      Bool.of_not_eq_false fun hfalse => h ⟨hlooping, hround, hexit, hfalse⟩
    rw [hok, hresult hpools, hpipeline]
    rfl
  · rw [maintainPools_of_exit round pools hpools hexit]

theorem pass_of_not_reaches (h : ¬ ReachesPipeline round s)
    (hpools : ∀ pool, round.poolMaintained pool = true) (hstep : pass round s = some t) :
    t.attempts = s.attempts ∧ t.exitFlagRaised = s.exitFlagRaised := by
  cases hlooping : s.looping with
  | false => simp [pass, hlooping] at hstep
  | true =>
    cases hround : round.exitBeforeRound with
    | true =>
      simp only [pass, hlooping, hround] at hstep
      cases hstep
      exact ⟨rfl, rfl⟩
    | false =>
      have hsame := doProcessMaintenance_of_not_reaches h hpools hlooping hround
      simp only [pass, hlooping, hround, hsame] at hstep
      cases hstep
      exact ⟨rfl, rfl⟩

theorem exists_maintained (h : ReachesPipeline round s) (hstep : pass round s = some t) :
    ∃ outcome, Maintained s t outcome := by
  obtain ⟨ok, -, hpass⟩ := h.pass_eq
  obtain ⟨outcome, hattempts, hcount⟩ := foldl_attempt round.contention pipes pipes_nodup
    ⟨s.pipeline, s.failedCount, s.attempts, false, true⟩
  cases hpass.symm.trans hstep
  exact ⟨outcome, hattempts, fun stage => (hcount stage).trans (if_pos (mem_pipes stage))⟩

/-! ## Failures in a row -/

theorem failedInARow_append_le (new old : List (Stage × Bool)) (stage : Stage) :
    failedInARow (new ++ old) stage ≤
      (new.filter (·.1 = stage)).length + failedInARow old stage := by
  rw [failedInARow, failedInARow, List.filter_append, List.takeWhile_append]
  split_ifs with h
  · rw [List.length_append]
  · exact (List.takeWhile_sublist _).length_le.trans (Nat.le_add_right _ _)

theorem failedInARow_of_clean {attempts : List (Stage × Bool)}
    (h : ∀ a ∈ attempts, a.2 = true) (stage : Stage) : failedInARow attempts stage = 0 := by
  rw [failedInARow, List.length_eq_zero_iff, List.takeWhile_eq_nil_iff]
  intro hpos
  have hmem := (List.mem_filter.mp (List.get_mem _ ⟨0, hpos⟩)).1
  rw [h _ hmem]
  nofun

theorem Maintained.failedInARow_le {outcome : Stage → Bool} (h : Maintained s t outcome)
    (hclean : ∀ a ∈ s.attempts, a.2 = true) (stage : Stage) :
    failedInARow t.attempts stage ≤ 1 := by
  have hone : ((pipes.map fun stage => (stage, outcome stage)).reverse.filter
      (·.1 = stage)).length = 1 := by
    cases stage <;> rfl
  have hle := failedInARow_append_le
    (pipes.map fun stage => (stage, outcome stage)).reverse s.attempts stage
  rwa [hone, failedInARow_of_clean hclean, ← h.attempts] at hle

/-! ## Runs -/

structure Unshaken (s : MainLoop) : Prop where
  attempts : ∀ a ∈ s.attempts, a.2 = true
  exitFlagRaised : s.exitFlagRaised = false

theorem unshaken_start : Unshaken start where
  attempts := List.forall_mem_nil _
  exitFlagRaised := rfl

theorem tolerates_iff_noAttemptFails (hs : Unshaken s)
    (hpools : ∀ pool, round.poolMaintained pool = true) :
    Tolerates round s ↔ NoAttemptFails round s := by
  by_cases hreach : ReachesPipeline round s
  · obtain ⟨ok, hok, hpass⟩ := hreach.pass_eq
    rw [hok hpools] at hpass
    constructor
    · intro htolerates _
      rw [← doPipelineMaintenance_result]
      by_contra hfailed
      have hraised := exitFlagRaised_continued hs.exitFlagRaised
        (s.doPipelineMaintenance round.contention) true
      rw [Bool.eq_false_iff.mpr hfailed] at hraised
      obtain ⟨stage, hstage⟩ := htolerates.raises _ hpass hraised
      obtain ⟨outcome, hmaintained⟩ := exists_maintained hreach hpass
      have hle := hmaintained.failedInARow_le hs.attempts stage
      unfold maintenanceWarningCount at hstage
      omega
    · refine fun hnone => ⟨fun t hstep hraised => ?_, fun _ t => exists_maintained hreach⟩
      have htrue := doPipelineMaintenance_result.mpr (hnone hreach)
      cases hpass.symm.trans hstep
      rw [exitFlagRaised_continued hs.exitFlagRaised, htrue] at hraised
      cases hraised
  · refine iff_of_true ⟨fun t hstep hraised => ?_, fun h => absurd h hreach⟩
      fun h => absurd h hreach
    have hsame := (pass_of_not_reaches hreach hpools hstep).2
    rw [hraised, hs.exitFlagRaised] at hsame
    cases hsame

theorem Unshaken.step (hs : Unshaken s) (hpools : ∀ pool, round.poolMaintained pool = true)
    (hnone : NoAttemptFails round s) (hstep : pass round s = some t) : Unshaken t := by
  by_cases hreach : ReachesPipeline round s
  · obtain ⟨ok, hok, hpass⟩ := hreach.pass_eq
    have htrue := doPipelineMaintenance_result.mpr (hnone hreach)
    cases hpass.symm.trans hstep
    refine ⟨foldl_attempt_clean _ _ _ htrue hs.attempts, ?_⟩
    rw [exitFlagRaised_continued hs.exitFlagRaised, htrue, hok hpools]
    rfl
  · obtain ⟨hattempts, hflag⟩ := pass_of_not_reaches hreach hpools hstep
    exact ⟨hattempts ▸ hs.attempts, hflag.trans hs.exitFlagRaised⟩

/-- With pools that are maintained, the loop tolerates contention all along a run exactly
when there is none. -/
theorem tolerates_along_iff (rounds : List Round)
    (hpools : ∀ round ∈ rounds, ∀ pool, round.poolMaintained pool = true) :
    machine.Along Tolerates rounds start ↔ machine.Along NoAttemptFails rounds start := by
  refine Machine.along_congr (I := Unshaken) ?_ ?_ unshaken_start
  · intro round hround s hs
    exact tolerates_iff_noAttemptFails hs (hpools round hround)
  · intro round hround s t hs hnone hstep
    exact hs.step (hpools round hround) hnone hstep

def roundWith (contention : Contention) : Round :=
  ⟨false, fun _ => false, fun _ => true, false, contention⟩

def calm : Contention :=
  ⟨fun _ p => (p.publishConnectN true [4]).2, fun _ => true⟩

def timedOut : Contention :=
  ⟨fun _ p => (p.publishConnectN true [4]).2, fun stage => stage ≠ .request⟩

theorem tolerates_along_calm :
    machine.Along Tolerates [roundWith calm, roundWith calm] start := by
  refine (tolerates_along_iff _ (by simp [roundWith])).mpr
    ⟨fun _ => ?_, fun t _ => ⟨fun _ => ?_, ?_⟩⟩
  · simp [Unhindered, pipes, roundWith, calm]
  · simp [Unhindered, pipes, roundWith, calm]
  · exact fun u _ => trivial

/-- One attempt that is not obtained in time, the first of the run, ends the loop. -/
theorem timedOut_not_tolerated :
    ¬ machine.Along Tolerates [roundWith timedOut] start ∧
    ∃ t, machine.run [roundWith timedOut] start = some t ∧ t.exitFlagRaised = true ∧
      t.attempts =
        [(.completed, true), (.response, true), (.datamodel, true), (.request, false)] := by
  refine ⟨fun h => ?_, _, rfl, rfl, rfl⟩
  obtain ⟨stage, hstage⟩ := h.1.raises _ rfl rfl
  cases stage <;> exact absurd hstage (by decide)

end MainLoop

end MultiplexServer

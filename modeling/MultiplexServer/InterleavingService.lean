import MultiplexServer.InterleavingLocks

/-! How often a stage is handed an element. Whoever has got one settles it for its stage
before the lock is given up, so a second worker gets it only by an exchange that comes
after a test made before. -/

namespace MultiplexServer.Interleaving
open Strings NetworkConnections ServerPipeline ServerPipelineElement

variable {cfg : InterleavingConfig} {s s' : Interleaving cfg} {t : Thread}

/-! ## Flags are only ever raised -/

def Grows (e e' : ServerPipelineElement) : Prop :=
  ∀ stage, e.completedPredicate stage = true → e'.completedPredicate stage = true

theorem Grows.refl (e : ServerPipelineElement) : Grows e e := fun _ => id

theorem grows_markAsCompleted (w : Worker) (e : ServerPipelineElement) :
    Grows e (w.markAsCompleted e) := by
  intro stage h
  cases w <;> cases stage <;>
    simp_all [completedPredicate, isRequestCompletedPredicate, isDatamodelCompletedPredicate,
      isResponseCompletedPredicate, isCompletedCompletedPredicate, Worker.markAsCompleted,
      markAsRequestCompleted, markAsDatamodelCompleted, markAsResponseCompleted]

theorem grows_markAsFailed (w : Worker) (e : ServerPipelineElement) :
    Grows e (w.markAsFailed e) := by
  intro stage h
  cases w <;> cases stage <;>
    simp_all [completedPredicate, isRequestCompletedPredicate, isDatamodelCompletedPredicate,
      isResponseCompletedPredicate, isCompletedCompletedPredicate, Worker.markAsFailed,
      markAsRequestFailed, markAsDatamodelFailed, markAsResponseFailed]

theorem Action.apply_grows {objectId : Nat} {e e' : ServerPipelineElement} {action : Action}
    (h : action.apply objectId e = some e') : Grows e e' := by
  cases action with
  | setRequestString s | setResponseString s =>
    simp only [Action.apply, setRequestString, setResponseString] at h
    split_ifs at h
    cases h
    exact fun stage => by cases stage <;> exact id
  | checkOwner =>
    simp only [Action.apply] at h
    split_ifs at h
    cases h
    exact fun _ => id
  | push =>
    cases h
    exact fun _ => id
  | markAsCloseConnectionRequired =>
    cases h
    exact fun stage => by cases stage <;> exact id
  | markAsCompleted w =>
    cases h
    exact grows_markAsCompleted w e
  | markAsFailed w =>
    cases h
    exact grows_markAsFailed w e

theorem Touch.grows {r : Ref} {pc pc' : Pc} {f : ServerPipelineElement → ServerPipelineElement}
    (h : Touch s t r pc f pc') : Grows (s.pipeline.elements r) (f (s.pipeline.elements r)) := by
  cases h with
  | stamp | disown => exact fun stage => by cases stage <;> exact id
  | act worker done => exact Action.apply_grows done
  | mark listener =>
    intro stage
    cases stage with
    | completed => exact fun _ => rfl
    | request | datamodel | response => exact id

theorem completedPredicate_markAsCompleted (w : Worker) (e : ServerPipelineElement) :
    (w.markAsCompleted e).completedPredicate w.stage = true := by
  cases w <;> rfl

theorem completedPredicate_markAsFailed (w : Worker) (e : ServerPipelineElement) :
    (w.markAsFailed e).completedPredicate w.stage = true := by
  cases w with
  | reader =>
    exact Bool.or_true _
  | datamodel | writer =>
    simp [completedPredicate, Worker.stage, Worker.markAsFailed, isDatamodelCompletedPredicate,
      isResponseCompletedPredicate, markAsDatamodelFailed, markAsResponseFailed]

/-! ## Who still owes a stage its mark -/

/-- The thread has the element and will have it skipped before it lets go. -/
def Due (cfg : InterleavingConfig) (t : Thread) (r : Ref) : Pc → Prop
  | .stamping x | .returning (some x) | .serving x => x = r
  | .running x actions => x = r ∧ ∃ i, t = .worker i ∧
    (.markAsCompleted (cfg.role i) ∈ actions ∨ .markAsFailed (cfg.role i) ∈ actions)
  | .removing x | .closing x | .releasing x | .marking x => x = r
  | _ => False

theorem Due.held {r : Ref} {pc : Pc} (h : Due cfg t r pc) : pc.held = some r := by
  cases pc with
  | running => exact congrArg some h.1
  | returning found =>
    cases found with
    | none => cases h
    | some => exact congrArg some h
  | stamping | serving | removing | closing | releasing | marking => exact congrArg some h
  | polling | announcing | idle | locking | testing | loading | exchanging | unlocking => cases h

theorem mark_mem_publish (w : Worker) {actions : List Action}
    (h : (∃ text, actions = publishOk w text) ∨ actions = publishNotOk w) :
    .markAsCompleted w ∈ actions ∨ .markAsFailed w ∈ actions := by
  rcases h with ⟨text, rfl⟩ | rfl
  · exact .inl (by cases w <;> simp [publishOk])
  · exact .inr (by simp [publishNotOk])

theorem Walk.due {r : Ref} {pc pc' : Pc} (h : Walk s t pc pc') (hdue : Due cfg t r pc) :
    Due cfg t r pc' := by
  cases h with
  | found => exact hdue
  | @served i _ _ worker outcome =>
    exact ⟨hdue, i, worker, mark_mem_publish (cfg.role i) outcome⟩
  | @brokenOff i _ _ _ worker =>
    exact ⟨hdue.1, i, worker, .inr List.mem_cons_self⟩
  | remove | release => exact hdue
  | empty | notEmpty | timeout | acquired | exhausted | skipped | tested | busy | free | lost
  | nothing => cases hdue

theorem Touch.due {r x : Ref} {pc pc' : Pc} {f : ServerPipelineElement → ServerPipelineElement}
    (h : Touch s t r pc f pc') (hdue : Due cfg t x pc) :
    Due cfg t x pc' ∨ x = r ∧
      (f (s.pipeline.elements r)).completedPredicate (stage cfg t) = true := by
  cases h with
  | stamp => exact .inl hdue
  | @act i action actions e worker done =>
    obtain ⟨hx, j, hj, hmark⟩ := hdue
    subst hj
    have hstay : (.markAsCompleted (cfg.role j) ∈ actions ∨ .markAsFailed (cfg.role j) ∈ actions) →
        Due cfg (.worker j) x (.running r actions) := fun hmark => ⟨hx, j, rfl, hmark⟩
    rcases hmark with hmark | hmark
    · rcases List.mem_cons.mp hmark with rfl | hlater
      · cases done
        exact .inr ⟨hx.symm, completedPredicate_markAsCompleted _ _⟩
      · exact .inl (hstay (.inl hlater))
    · rcases List.mem_cons.mp hmark with rfl | hlater
      · cases done
        exact .inr ⟨hx.symm, completedPredicate_markAsFailed _ _⟩
      · exact .inl (hstay (.inr hlater))
  | disown =>
    obtain ⟨-, i, -, hmark⟩ := hdue
    simp at hmark
  | mark listener =>
    subst listener
    exact .inr ⟨hdue.symm, rfl⟩

/-! ## One hand-out for each stage -/

/-- Whenever an exchange succeeds, the pipe's predicate is still false of the element. -/
def current : Tick → Interleaving cfg → Bool
  | .thread t _, s =>
    match s.pc t with
    | .exchanging r _ => (s.pipeline.elements r).isLocked ||
      !(s.pipeline.elements r).completedPredicate (stage cfg t)
    | _ => true
  | .maintenance _, _ => true

/-- No stage has been handed an element twice, and what it has been handed is skipped
from now on or in the hands of a thread that owes the mark. -/
structure Served (s : Interleaving cfg) : Prop where
  known : Known s
  locks : Locks s
  nodup : s.taken.Nodup
  due : ∀ target r, (target, r) ∈ s.taken →
    (s.pipeline.elements r).completedPredicate target = true ∨
      ∃ t, stage cfg t = target ∧ Due cfg t r (s.pc t)

theorem Served.goto (h : Served s) {u : Interleaving cfg} {pc : Pc} (hpc : u.pc = s.pc)
    (hknown : Known (u.goto t pc)) (hlocks : Locks (u.goto t pc)) (hnodup : u.taken.Nodup)
    (htaken : ∀ target r, (target, r) ∈ u.taken →
      (target, r) ∈ s.taken ∨ target = stage cfg t ∧ Due cfg t r pc)
    (hgrows : ∀ r < s.pipeline.created, Grows (s.pipeline.elements r) (u.pipeline.elements r))
    (hdue : ∀ r, Due cfg t r (s.pc t) → Due cfg t r pc ∨
      (u.pipeline.elements r).completedPredicate (stage cfg t) = true) :
    Served (u.goto t pc) where
  known := hknown
  locks := hlocks
  nodup := hnodup
  due target r hr := by
    simp only [goto_pipeline, goto_pc, hpc]
    have howed : Due cfg t r pc → ∃ x, stage cfg x = stage cfg t ∧
        Due cfg x r (Function.update s.pc t pc x) := fun hlater =>
      ⟨t, rfl, by rwa [Function.update_self]⟩
    rcases htaken target r hr with hold | ⟨rfl, hnew⟩
    · rcases h.due target r hold with hskip | ⟨x, rfl, hx⟩
      · exact .inl (hgrows r (h.known.taken target r hold) target hskip)
      · by_cases hxt : x = t
        · subst hxt
          rcases hdue r hx with hlater | hdone
          · exact .inr (howed hlater)
          · exact .inl hdone
        · exact .inr ⟨x, rfl, by rwa [Function.update_of_ne hxt]⟩
    · exact .inr (howed hnew)

theorem Served.fresh (h : Served s) {r : Ref}
    (hfree : (s.pipeline.elements r).isLocked = false)
    (hcurrent : (s.pipeline.elements r).completedPredicate (stage cfg t) = false) :
    (stage cfg t, r) ∉ s.taken := by
  intro hmem
  rcases h.due _ r hmem with hskip | ⟨x, -, hx⟩
  · rw [hcurrent] at hskip
    cases hskip
  · exact h.locks.free hfree x hx.held

theorem grows_modify {p : ServerPipeline} {r : Ref} (x : Ref)
    {f : ServerPipelineElement → ServerPipelineElement}
    (h : Grows (p.elements r) (f (p.elements r))) :
    Grows (p.elements x) ((p.modify r f).elements x) := by
  by_cases hx : x = r
  · subst hx
    simpa using h
  · simpa [hx] using Grows.refl _

theorem grows_isLocked (p : ServerPipeline) (r : Ref) (isLocked : Bool) (x : Ref) :
    Grows (p.elements x) ((p.modify r fun e => { e with isLocked }).elements x) :=
  grows_modify x fun stage => by cases stage <;> exact id

theorem Served.announced (h : Served s) (inTime : Bool) (here : s.pc .listener = .announcing)
    (hknown : Known ((s.announce inTime).goto .listener .idle))
    (hlocks : Locks ((s.announce inTime).goto .listener .idle)) :
    Served ((s.announce inTime).goto .listener .idle) := by
  have hidle : ∀ x, Due cfg .listener x (s.pc .listener) → Due cfg .listener x .idle := by
    intro x hdue
    rw [here] at hdue
    exact hdue
  rcases announce_cases s inTime with heq | ⟨acquired, hpublished, heq⟩
  · rw [heq] at hknown hlocks ⊢
    exact h.goto rfl hknown hlocks h.nodup (fun _ _ => .inl) (fun _ _ => Grows.refl _)
      fun x hdue => .inl (hidle x hdue)
  · rw [heq] at hknown hlocks ⊢
    refine h.goto rfl hknown hlocks h.nodup (fun _ _ => .inl) (fun x hx => ?_)
      fun x hdue => .inl (hidle x hdue)
    rw [publishConnectN_old hpublished hx]
    exact Grows.refl _

theorem Served.steps (h : Served s) (hstep : Steps s t s')
    (hcurrent : ∀ r todo, s.pc t = .exchanging r todo →
      (s.pipeline.elements r).isLocked = false →
      (s.pipeline.elements r).completedPredicate (stage cfg t) = false) : Served s' := by
  have hknown := h.known.steps hstep
  have hlocks := h.locks.steps h.known hstep
  cases hstep with
  | walk mutex hwalk =>
    exact h.goto rfl hknown hlocks h.nodup (fun _ _ => .inl) (fun _ _ => Grows.refl _)
      fun _ hdue => .inl (hwalk.due hdue)
  | @taken _ r todo here free =>
    refine h.goto rfl hknown hlocks ?_ (fun target x hx => ?_)
      (fun x _ => grows_isLocked s.pipeline r true x) fun x hdue => ?_
    · have hfresh := h.fresh free (hcurrent r todo here free)
      exact List.nodup_append.mpr ⟨h.nodup, List.nodup_singleton _, by
        rintro a ha b hb rfl
        exact hfresh (List.mem_singleton.mp hb ▸ ha)⟩
    · rcases List.mem_append.mp hx with hold | hnew
      · exact .inl hold
      · cases List.mem_singleton.mp hnew
        exact .inr ⟨rfl, rfl⟩
    · rw [here] at hdue
      cases hdue
  | @touched _ r f pc htouch =>
    refine h.goto rfl hknown hlocks h.nodup (fun _ _ => .inl)
      (fun x _ => grows_modify x htouch.grows) fun x hdue => ?_
    refine (htouch.due hdue).imp_right ?_
    rintro ⟨rfl, hdone⟩
    simpa using hdone
  | @pushed i r _ actions here =>
    refine h.goto rfl hknown hlocks h.nodup (fun _ _ => .inl) (fun _ _ => Grows.refl _)
      fun x hdue => ?_
    rw [here] at hdue
    obtain ⟨hx, j, hj, hmark⟩ := hdue
    exact .inl ⟨hx, j, hj, by simpa using hmark⟩
  | @unlocked _ r here =>
    refine h.goto rfl hknown hlocks h.nodup (fun _ _ => .inl)
      (fun x _ => grows_isLocked s.pipeline r false x) fun x hdue => ?_
    rw [here] at hdue
    cases hdue
  | polled here done =>
    obtain ⟨hpipeline, hpc, htaken, -⟩ := poll_pipeline done
    refine h.goto hpc hknown hlocks (htaken ▸ h.nodup) (fun _ _ hr => .inl (htaken ▸ hr))
      (fun x _ => by rw [hpipeline]; exact Grows.refl _) fun x hdue => ?_
    rw [here] at hdue
    cases hdue
  | announced inTime here => exact h.announced inTime here hknown hlocks
  | removed here | released here =>
    exact h.goto rfl hknown hlocks h.nodup (fun _ _ => .inl) (fun _ _ => Grows.refl _)
      fun x hdue => .inl (by rw [here] at hdue; exact hdue)
  | closed here =>
    exact h.goto (by simp) hknown hlocks (by simpa using h.nodup)
      (fun _ _ hr => .inl (by simpa using hr))
      (fun x _ => by rw [close_pipeline]; exact Grows.refl _)
      fun x hdue => .inl (by rw [here] at hdue; exact hdue)

theorem Served.maintain (h : Served s) {stage : Stage} (hstep : s.maintain stage = some s') :
    Served s' := by
  have hknown := h.known.maintain hstep
  have hlocks := h.locks.maintain hstep
  obtain ⟨pipe, -, rfl⟩ := maintain_pipeline hstep
  exact ⟨hknown, hlocks, h.nodup, h.due⟩

theorem Served.step (h : Served s) {tick : Tick} (hcurrent : current tick s = true)
    (hstep : step tick s = some s') : Served s' := by
  cases tick with
  | maintenance stage => exact h.maintain hstep
  | thread t answer =>
    refine h.steps (steps_of_step hstep) fun r todo here hfree => ?_
    simpa [current, here, hfree] using hcurrent

theorem served_start (cfg : InterleavingConfig) : Served (start cfg) where
  known := known_start cfg
  locks := locks_start cfg
  nodup := List.nodup_nil
  due _ _ hr := absurd hr List.not_mem_nil

/-- Handed out at most once to each stage, in every run in which no exchange succeeds on
an element that has been settled since its test. -/
theorem taken_at_most_once (h : (machine cfg).ReachableUnder (fun a s => current a s = true) s)
    (stage : Stage) (r : Ref) : s.taken.count (stage, r) ≤ 1 := by
  have hserved : Served s := h.invariant (served_start cfg) fun _ _ _ hs hcurrent hstep =>
    hs.step hcurrent hstep
  exact List.nodup_iff_count_le_one.mp hserved.nodup (stage, r)

/-! ## Two readers -/

def twoReaders : InterleavingConfig where
  role _ := .reader
  objectId
    | .listener => 1
    | .worker i => i + 2
  maximumClients := 2
  listenerFd := 3

def ticks (n : Nat) (t : Thread) (answer : Answer) : List Tick :=
  List.replicate n (.thread t answer)

def answerOk : Answer := ⟨true, true, [120], .ready [], -1⟩

def polled (ready : List Int) (accepted : Int) : Answer :=
  { answerOk with select := .ready ready, accepted }

/-- A client connects on descriptor 4 and is published; the first reader has got as far
as its service, the second one as far as the test of the same element. -/
def opening : List Tick :=
  ticks 3 .listener (polled [3] 4) ++ ticks 2 .listener (polled [4] (-1)) ++
    ticks 7 (.worker 0) answerOk ++ ticks 3 (.worker 1) answerOk

theorem taken_at_most_once_opening :
    ∃ s, (machine twoReaders).runUnder (fun a s => current a s = true)
        (opening ++ ticks 7 (.worker 0) answerOk) (start twoReaders) = some s ∧
      s.taken.count (.request, 0) ≤ 1 := by
  have hrun : ((machine twoReaders).runUnder (fun a s => current a s = true)
      (opening ++ ticks 7 (.worker 0) answerOk) (start twoReaders)).isSome := by decide +kernel
  obtain ⟨s, hs⟩ := Option.isSome_iff_exists.mp hrun
  exact ⟨s, hs, taken_at_most_once (Machine.reachableUnder_of_run hs) .request 0⟩

/-- Two steps later the second reader has the element that the first one has finished with. -/
theorem taken_twice :
    ∃ s, (machine twoReaders).run (opening ++ ticks 7 (.worker 0) answerOk ++
        ticks 2 (.worker 1) answerOk) (start twoReaders) = some s ∧
      (machine twoReaders).Reachable s ∧ s.pc (.worker 0) = .idle ∧
      s.taken.count (.request, 0) = 2 := by
  have hrun : ((machine twoReaders).run (opening ++ ticks 7 (.worker 0) answerOk ++
      ticks 2 (.worker 1) answerOk) (start twoReaders)).map (fun s =>
        (s.pc (.worker 0), s.taken.count (.request, 0))) = some (.idle, 2) := by decide +kernel
  obtain ⟨s, hs, hstate⟩ := Option.map_eq_some_iff.mp hrun
  obtain ⟨hpc, hcount⟩ := Prod.mk.inj hstate
  exact ⟨s, hs, Machine.reachable_of_run hs, hpc, hcount⟩

end MultiplexServer.Interleaving

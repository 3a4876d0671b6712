import MultiplexServer.Interleaving

/-! What a step of a thread can be, said once. Most steps only move the thread; the others
touch the element that it holds, or are the listener's work on its own tables. -/

namespace MultiplexServer
open Strings NetworkConnections

namespace Pc

/-- The element whose lock the thread has, from the exchange to the last store. -/
def held : Pc → Option Ref
  | .stamping r | .returning (some r) | .serving r | .running r _ | .unlocking r
  | .removing r | .closing r | .releasing r | .marking r => some r
  | _ => none

def refs : Pc → List Ref
  | .testing todo => todo
  | .loading r todo | .exchanging r todo => r :: todo
  | pc => pc.held.toList

theorem mem_refs_of_held {pc : Pc} {r : Ref} (h : pc.held = some r) : r ∈ pc.refs := by
  cases pc with
  | testing | loading | exchanging => cases h
  | _ => simp [refs, h]

end Pc

namespace Interleaving

variable {cfg : InterleavingConfig} {s s' : Interleaving cfg} {t : Thread}

/-- The steps that change nothing but the point where the thread stands, and perhaps the
mutex of its scan. -/
inductive Walk (s : Interleaving cfg) (t : Thread) : Pc → Pc → Prop where
  | empty : Walk s t .idle (rest false t)
  | notEmpty : Walk s t .idle .locking
  | timeout : Walk s t .locking (rest false t)
  | acquired : Walk s t .locking (.testing (s.pipeline.pipe (stage cfg t)).elements)
  | exhausted : Walk s t (.testing []) (.returning none)
  | skipped {r : Ref} {todo : List Ref} : Walk s t (.testing (r :: todo)) (.testing todo)
  | tested {r : Ref} {todo : List Ref}
      (due : (s.pipeline.elements r).completedPredicate (stage cfg t) = false) :
      Walk s t (.testing (r :: todo)) (.loading r todo)
  | busy {r : Ref} {todo : List Ref} : Walk s t (.loading r todo) (.testing todo)
  | free {r : Ref} {todo : List Ref} : Walk s t (.loading r todo) (.exchanging r todo)
  | lost {r : Ref} {todo : List Ref} : Walk s t (.exchanging r todo) (.testing todo)
  | nothing : Walk s t (.returning none) (rest false t)
  | found {r : Ref} : Walk s t (.returning (some r)) (.serving r)
  | served {i : Nat} {r : Ref} {actions : List Action} (worker : t = .worker i)
      (outcome : (∃ text, actions = publishOk (cfg.role i) text) ∨
        actions = publishNotOk (cfg.role i)) : Walk s t (.serving r) (.running r actions)
  | brokenOff {i : Nat} {r : Ref} {action : Action} {actions : List Action}
      (worker : t = .worker i) :
      Walk s t (.running r (action :: actions)) (.running r (brokenOff (cfg.role i)))
  | remove {r : Ref} (listener : t = .listener) : Walk s t (.serving r) (.removing r)
  | release {r : Ref} (listener : t = .listener) : Walk s t (.serving r) (.releasing r)

inductive Touch (s : Interleaving cfg) (t : Thread) (r : Ref) :
    Pc → (ServerPipelineElement → ServerPipelineElement) → Pc → Prop where
  | stamp : Touch s t r (.stamping r) (fun e => { e with lockedById := cfg.objectId t })
      (.returning (some r))
  | act {i : Nat} {action : Action} {actions : List Action} {e : ServerPipelineElement}
      (worker : t = .worker i)
      (done : action.apply (cfg.objectId t) (s.pipeline.elements r) = some e) :
      Touch s t r (.running r (action :: actions)) (fun _ => e) (.running r actions)
  | disown : Touch s t r (.running r []) (fun e => { e with lockedById := 0 }) (.unlocking r)
  | mark (listener : t = .listener) :
      Touch s t r (.marking r) .markAsCompletedCompleted (.running r [])

inductive Steps (s : Interleaving cfg) : Thread → Interleaving cfg → Prop where
  | walk {t : Thread} {pc : Pc} (mutex : Stage → Option Thread) (h : Walk s t (s.pc t) pc) :
      Steps s t ({ s with mutex }.goto t pc)
  | taken {t : Thread} {r : Ref} {todo : List Ref} (here : s.pc t = .exchanging r todo)
      (free : (s.pipeline.elements r).isLocked = false) :
      Steps s t ({ s with
        pipeline := s.pipeline.modify r fun e => { e with isLocked := true }
        taken := s.taken ++ [(stage cfg t, r)] }.goto t (.stamping r))
  | touched {t : Thread} {r : Ref} {f : ServerPipelineElement → ServerPipelineElement} {pc : Pc}
      (h : Touch s t r (s.pc t) f pc) :
      Steps s t ({ s with pipeline := s.pipeline.modify r f }.goto t pc)
  | pushed {i : Nat} {r : Ref} {stage : Stage} {actions : List Action}
      (here : s.pc (.worker i) = .running r (.push stage :: actions)) :
      Steps s (.worker i)
        ({ s with pipeline := s.pipeline.push stage r }.goto (.worker i) (.running r actions))
  | unlocked {t : Thread} {r : Ref} (here : s.pc t = .unlocking r) :
      Steps s t ({ s with
        pipeline := s.pipeline.modify r fun e => { e with isLocked := false } }.goto t
          (rest true t))
  | polled {answer : Answer} {u : Interleaving cfg} (here : s.pc .listener = .polling)
      (done : s.poll answer = some u) : Steps s .listener (u.goto .listener .announcing)
  | announced (inTime : Bool) (here : s.pc .listener = .announcing) :
      Steps s .listener ((s.announce inTime).goto .listener .idle)
  | removed {r : Ref} (here : s.pc .listener = .removing r) :
      Steps s .listener ((s.setTable ((removeConnection (s.pipeline.elements r).clientFd
        s.connections.networkConnections).getD s.connections.networkConnections)).goto .listener
          (.closing r))
  | closed {r : Ref} (here : s.pc .listener = .closing r) :
      Steps s .listener ((s.close (s.pipeline.elements r).clientFd).goto .listener (.marking r))
  | released {r : Ref} (here : s.pc .listener = .releasing r) :
      Steps s .listener ((s.setTable ((unlockConnection (s.pipeline.elements r).clientFd
        s.connections.networkConnections).getD s.connections.networkConnections)).goto .listener
          (.marking r))

theorem Steps.walk_self {pc : Pc} (h : Walk s t (s.pc t) pc) : Steps s t (s.goto t pc) :=
  .walk s.mutex h

theorem modify_lock_of_locked {p : ServerPipeline} {r : Ref}
    (h : (p.elements r).isLocked = true) :
    p.modify r (fun e => { e with isLocked := true }) = p := by
  have hsame : { p.elements r with isLocked := true } = p.elements r := by
    generalize p.elements r = e at h ⊢
    cases e
    cases h
    rfl
  rw [ServerPipeline.modify, hsame, Function.update_eq_self]

theorem steps_exchange {r : Ref} {todo : List Ref} (here : s.pc t = .exchanging r todo) :
    Steps s t (s.exchange t r todo) := by
  simp only [exchange]
  split_ifs with hlocked
  · rw [modify_lock_of_locked hlocked]
    exact .walk_self (here ▸ .lost)
  · exact .taken here (by simpa using hlocked)

theorem steps_common {answer : Answer} (h : s.common t answer (s.pc t) = some s') :
    Steps s t s' := by
  cases hpc : s.pc t with
  | idle =>
    simp only [common, hpc] at h
    split_ifs at h
    · cases h
      exact .walk_self (hpc ▸ .empty)
    · cases h
      exact .walk_self (hpc ▸ .notEmpty)
  | locking =>
    simp only [common, hpc] at h
    split_ifs at h
    · cases h
      exact .walk _ (hpc ▸ .acquired)
    · cases h
      exact .walk_self (hpc ▸ .timeout)
  | testing todo =>
    cases todo with
    | nil =>
      simp only [common, hpc] at h
      cases h
      exact .walk_self (hpc ▸ .exhausted)
    | cons r todo =>
      simp only [common, hpc] at h
      split_ifs at h with hskip
      · cases h
        exact .walk_self (hpc ▸ .skipped)
      · cases h
        exact .walk_self (hpc ▸ .tested (by simpa using hskip))
  | loading r todo =>
    simp only [common, hpc] at h
    split_ifs at h
    · cases h
      exact .walk_self (hpc ▸ .busy)
    · cases h
      exact .walk_self (hpc ▸ .free)
  | exchanging r todo =>
    simp only [common, hpc] at h
    cases h
    exact steps_exchange hpc
  | stamping r =>
    simp only [common, hpc] at h
    cases h
    exact .touched (hpc ▸ .stamp)
  | returning found =>
    simp only [common, hpc] at h
    cases h
    cases found with
    | none => exact .walk _ (hpc ▸ .nothing)
    | some r => exact .walk _ (hpc ▸ .found)
  | running r actions =>
    cases actions with
    | nil =>
      simp only [common, hpc] at h
      cases h
      exact .touched (hpc ▸ .disown)
    | cons action actions =>
      simp only [common, hpc] at h
      cases h
  | unlocking r =>
    simp only [common, hpc] at h
    cases h
    exact .unlocked hpc
  | polling | announcing | serving | removing | closing | releasing | marking =>
    simp only [common, hpc] at h
    cases h

theorem steps_act {i : Nat} {r : Ref} {action : Action} {actions : List Action}
    (here : s.pc (.worker i) = .running r (action :: actions))
    (h : s.act i r action actions = some s') : Steps s (.worker i) s' := by
  have hother : Steps s (.worker i)
      (s.perform i r actions (action.apply (cfg.objectId (.worker i)) (s.pipeline.elements r))) := by
    cases hfound : action.apply (cfg.objectId (.worker i)) (s.pipeline.elements r) with
    | none => exact .walk_self (here ▸ .brokenOff rfl)
    | some e => exact .touched (here ▸ .act rfl hfound)
  cases action with
  | push stage =>
    simp only [act] at h
    split_ifs at h
    cases h
    exact .pushed here
  | setRequestString | setResponseString | checkOwner | markAsCloseConnectionRequired
  | markAsCompleted | markAsFailed =>
    cases h
    exact hother

theorem steps_of_step {answer : Answer} (h : step (.thread t answer) s = some s') :
    Steps s t s' := by
  cases t with
  | listener =>
    simp only [step, listener] at h
    split at h
    · rename_i hpc
      obtain ⟨u, hdone, rfl⟩ := Option.map_eq_some_iff.mp h
      exact .polled hpc hdone
    · rename_i hpc
      cases h
      exact .announced _ hpc
    · rename_i r hpc
      split_ifs at h
      · cases h
        exact .walk_self (hpc ▸ .remove rfl)
      · cases h
        exact .walk_self (hpc ▸ .release rfl)
    · rename_i r hpc
      cases h
      exact .removed hpc
    · rename_i r hpc
      cases h
      exact .closed hpc
    · rename_i r hpc
      cases h
      exact .released hpc
    · rename_i r hpc
      cases h
      exact .touched (hpc ▸ .mark rfl)
    · exact steps_common h
  | worker i =>
    simp only [step, worker] at h
    split at h
    · rename_i r hpc
      cases h
      refine .walk_self (hpc ▸ .served rfl ?_)
      split
      · exact .inl ⟨_, rfl⟩
      · exact .inr rfl
    · rename_i r action actions hpc
      exact steps_act hpc h
    · exact steps_common h

end Interleaving

end MultiplexServer

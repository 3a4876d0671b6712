import MultiplexServer.InterleavingSteps

/-! Who holds what, over every interleaving: an element is locked exactly while one thread
has it, and no thread touches an element that was never made. -/

namespace MultiplexServer.Interleaving
open Strings NetworkConnections ServerPipeline

variable {cfg : InterleavingConfig} {s s' : Interleaving cfg} {t : Thread}

section Goto

variable (s) (t) (pc : Pc)

@[simp] theorem goto_pc : (s.goto t pc).pc = Function.update s.pc t pc := rfl
@[simp] theorem goto_pipeline : (s.goto t pc).pipeline = s.pipeline := rfl
@[simp] theorem goto_connections : (s.goto t pc).connections = s.connections := rfl
@[simp] theorem goto_descriptors : (s.goto t pc).descriptors = s.descriptors := rfl
@[simp] theorem goto_origin : (s.goto t pc).origin = s.origin := rfl
@[simp] theorem goto_taken : (s.goto t pc).taken = s.taken := rfl

end Goto

/-! ## The listener's compound steps -/

theorem announce_cases (s : Interleaving cfg) (inTime : Bool) :
    s.announce inTime = { s with connections := s.connections.getActiveConnections } ∨
    ∃ acquired, (s.pipeline.publishConnectN acquired
        s.connections.getActiveConnections.activeConnections).1 = true ∧
      s.announce inTime = { s with
        pipeline := (s.pipeline.publishConnectN acquired
          s.connections.getActiveConnections.activeConnections).2
        connections := s.connections.getActiveConnections.clearPendingConnections
        origin := fun r =>
          if s.pipeline.created ≤ r then
            ((s.connections.getActiveConnections.activeConnections[r - s.pipeline.created]?.bind
              s.descriptors)).getD (s.origin r)
          else s.origin r } := by
  simp only [announce]
  split_ifs with hempty hpublished
  · exact .inl rfl
  · exact .inr ⟨_, hpublished, rfl⟩
  · exact .inl rfl

theorem poll_cases {answer : Answer} (h : s.poll answer = some s') :
    ∃ networkSockets, s' = { s with connections := { s.connections with networkSockets } } ∨
      s' = { s with
        connections := { s.connections with networkSockets }
        accepted := s.accepted + 1 } ∨
      ∃ newFd slots, 0 ≤ newFd ∧ s.descriptors newFd = none ∧
        addConnection newFd s.connections.networkConnections = some slots ∧
        s' = { s with
          connections := { s.connections with networkConnections := slots, networkSockets }
          descriptors := Function.update s.descriptors newFd (some s.accepted)
          accepted := s.accepted + 1 } := by
  simp only [poll] at h
  rw [Server.connectSelect_snd] at h
  split_ifs at h
  · simp only [accept] at h
    split_ifs at h with hneg hopen
    · exact ⟨_, .inl (Option.some.inj h).symm⟩
    · split at h
      · exact ⟨_, .inr (.inl (Option.some.inj h).symm)⟩
      · rename_i slots hslots
        exact ⟨_, .inr (.inr ⟨_, slots, Int.not_lt.mp hneg, by simpa using hopen, hslots,
          (Option.some.inj h).symm⟩)⟩
  · exact ⟨_, .inl (Option.some.inj h).symm⟩

theorem poll_pipeline {answer : Answer} (h : s.poll answer = some s') :
    s'.pipeline = s.pipeline ∧ s'.pc = s.pc ∧ s'.taken = s.taken ∧ s'.origin = s.origin := by
  obtain ⟨sockets, rfl | rfl | ⟨newFd, slots, -, -, -, rfl⟩⟩ := poll_cases h <;>
    exact ⟨rfl, rfl, rfl, rfl⟩

@[simp] theorem close_pipeline (s : Interleaving cfg) (fd : Int) :
    (s.close fd).pipeline = s.pipeline := by
  unfold close
  split_ifs <;> rfl

@[simp] theorem close_pc (s : Interleaving cfg) (fd : Int) : (s.close fd).pc = s.pc := by
  unfold close
  split_ifs <;> rfl

@[simp] theorem close_taken (s : Interleaving cfg) (fd : Int) : (s.close fd).taken = s.taken := by
  unfold close
  split_ifs <;> rfl

@[simp] theorem close_origin (s : Interleaving cfg) (fd : Int) :
    (s.close fd).origin = s.origin := by
  unfold close
  split_ifs <;> rfl

@[simp] theorem close_connections (s : Interleaving cfg) (fd : Int) :
    (s.close fd).connections = s.connections := by
  unfold close
  split_ifs <;> rfl

/-! ## What a thread may touch -/

theorem rest_held (found : Bool) (t : Thread) : (rest found t).held = none := by
  cases t <;> cases found <;> rfl

theorem rest_refs (found : Bool) (t : Thread) : (rest found t).refs = [] := by
  cases t <;> cases found <;> rfl

theorem Walk.held {pc pc' : Pc} (h : Walk s t pc pc') : pc'.held = pc.held := by
  cases h with
  | empty | timeout | nothing => exact rest_held false t
  | _ => rfl

theorem Walk.refs {pc pc' : Pc} (h : Walk s t pc pc') {r : Ref} (hr : r ∈ pc'.refs) :
    r ∈ pc.refs ∨ r ∈ (s.pipeline.pipe (stage cfg t)).elements := by
  cases h with
  | empty | timeout | nothing =>
    rw [rest_refs] at hr
    cases hr
  | acquired => exact .inr hr
  | skipped | busy | lost => exact .inl (List.mem_cons_of_mem _ hr)
  | notEmpty | exhausted => cases hr
  | _ => exact .inl hr

theorem Touch.held {r : Ref} {pc pc' : Pc} {f : ServerPipelineElement → ServerPipelineElement}
    (h : Touch s t r pc f pc') : pc.held = some r ∧ pc'.held = some r := by
  cases h <;> exact ⟨rfl, rfl⟩

theorem Touch.refs {r : Ref} {pc pc' : Pc} {f : ServerPipelineElement → ServerPipelineElement}
    (h : Touch s t r pc f pc') : pc'.refs = pc.refs := by
  cases h <;> rfl

theorem goto_pc_cases {u : Interleaving cfg} (hpc : u.pc = s.pc) (t : Thread) (pc : Pc)
    (x : Thread) :
    x = t ∧ (u.goto t pc).pc x = pc ∨ x ≠ t ∧ (u.goto t pc).pc x = s.pc x := by
  rw [goto_pc, hpc]
  by_cases hx : x = t
  · exact .inl ⟨hx, by rw [hx, Function.update_self]⟩
  · exact .inr ⟨hx, Function.update_of_ne hx _ _⟩

structure Known (s : Interleaving cfg) : Prop where
  pipes : ∀ stage, ∀ r ∈ (s.pipeline.pipe stage).elements, r < s.pipeline.created
  refs : ∀ t, ∀ r ∈ (s.pc t).refs, r < s.pipeline.created
  taken : ∀ stage r, (stage, r) ∈ s.taken → r < s.pipeline.created

theorem Known.held (h : Known s) {r : Ref} (hr : (s.pc t).held = some r) :
    r < s.pipeline.created :=
  h.refs t r (Pc.mem_refs_of_held hr)

theorem Known.goto (h : Known s) {u : Interleaving cfg} {pc : Pc}
    (hcreated : s.pipeline.created ≤ u.pipeline.created) (hpc : u.pc = s.pc)
    (hpipes : ∀ stage, ∀ r ∈ (u.pipeline.pipe stage).elements,
      r ∈ (s.pipeline.pipe stage).elements ∨ r < u.pipeline.created)
    (htaken : ∀ stage r, (stage, r) ∈ u.taken → (stage, r) ∈ s.taken ∨ r < u.pipeline.created)
    (hrefs : ∀ r ∈ pc.refs, r < u.pipeline.created) : Known (u.goto t pc) where
  pipes stage r hr := by
    rcases hpipes stage r hr with hold | hnew
    · exact (h.pipes stage r hold).trans_le hcreated
    · exact hnew
  refs x r hr := by
    rcases goto_pc_cases hpc t pc x with ⟨-, hx⟩ | ⟨-, hx⟩
    · exact hrefs r (hx ▸ hr)
    · exact (h.refs x r (hx ▸ hr)).trans_le hcreated
  taken stage r hr := by
    rcases htaken stage r hr with hold | hnew
    · exact (h.taken stage r hold).trans_le hcreated
    · exact hnew

theorem Known.steps (h : Known s) (hstep : Steps s t s') : Known s' := by
  cases hstep with
  | walk mutex hwalk =>
    refine h.goto (le_refl _) rfl (fun _ _ => .inl) (fun _ _ => .inl) fun r hr => ?_
    rcases hwalk.refs hr with hold | hpipe
    · exact h.refs t r hold
    · exact h.pipes _ r hpipe
  | @taken _ r todo here free =>
    have hr : r < s.pipeline.created := h.refs t r (by simp [here, Pc.refs])
    refine h.goto (le_refl _) rfl (fun _ _ => .inl) (fun stage x hx => ?_) fun x hx => ?_
    · rcases List.mem_append.mp hx with hold | hnew
      · exact .inl hold
      · cases List.mem_singleton.mp hnew
        exact .inr hr
    · cases List.mem_singleton.mp hx
      exact hr
  | touched htouch =>
    refine h.goto (le_refl _) rfl (fun _ _ => .inl) (fun _ _ => .inl) fun r hr => ?_
    rw [htouch.refs] at hr
    exact h.refs t r hr
  | @pushed i r stage actions here =>
    have hr : r < s.pipeline.created := h.held (congrArg Pc.held here)
    refine h.goto (le_refl _) rfl (fun target x hx => ?_) (fun _ _ => .inl) fun x hx => ?_
    · rcases (mem_push _ _).mp hx with ⟨-, rfl⟩ | hold
      · exact .inr hr
      · exact .inl hold
    · cases List.mem_singleton.mp hx
      exact hr
  | unlocked here =>
    refine h.goto (le_refl _) rfl (fun _ _ => .inl) (fun _ _ => .inl) fun r hr => ?_
    rw [rest_refs] at hr
    cases hr
  | polled here done =>
    obtain ⟨hpipeline, hpc, htaken, -⟩ := poll_pipeline done
    exact h.goto (by rw [hpipeline]) hpc (fun _ _ hr => .inl (hpipeline ▸ hr))
      (fun _ _ hr => .inl (htaken ▸ hr)) fun _ hr => absurd hr List.not_mem_nil
  | announced inTime here =>
    rcases announce_cases s inTime with heq | ⟨acquired, hpublished, heq⟩
    · rw [heq]
      exact h.goto (le_refl _) rfl (fun _ _ => .inl) (fun _ _ => .inl) fun _ hr => absurd hr List.not_mem_nil
    · rw [heq]
      have hcreated := publishConnectN_created hpublished
      refine h.goto (by rw [hcreated]; exact Nat.le_add_right _ _) rfl (fun stage r hr => ?_)
        (fun _ _ => .inl) fun _ hr => absurd hr List.not_mem_nil
      rw [hcreated]
      exact ((mem_publishConnectN hpublished stage r).mp hr).imp_right fun hnew => hnew.2.2
  | removed here | released here =>
    exact h.goto (le_refl _) rfl (fun _ _ => .inl) (fun _ _ => .inl) fun r hr =>
      h.refs .listener r (here ▸ hr)
  | closed here =>
    refine h.goto (by simp) (by simp) (fun _ _ hr => .inl (by simpa using hr))
      (fun _ _ hr => .inl (by simpa using hr)) fun r hr => ?_
    rw [close_pipeline]
    exact h.refs .listener r (here ▸ hr)

theorem maintain_pipeline {stage : Stage} (h : s.maintain stage = some s') :
    ∃ pipe, (∀ other, ∀ r ∈ (pipe other).elements, r ∈ (s.pipeline.pipe other).elements) ∧
      s' = { s with pipeline := { s.pipeline with pipe } } := by
  simp only [maintain] at h
  split_ifs at h
  split at h
  · cases h
  · rename_i r elements helements
    split_ifs at h
    cases h
    refine ⟨_, fun other x hx => ?_, rfl⟩
    by_cases hother : other = stage
    · subst hother
      rw [Function.update_self] at hx
      rw [helements]
      exact List.mem_cons_of_mem r hx
    · rwa [Function.update_of_ne hother] at hx

theorem Known.maintain (h : Known s) {stage : Stage} (hstep : s.maintain stage = some s') :
    Known s' := by
  obtain ⟨pipe, hpipe, rfl⟩ := maintain_pipeline hstep
  exact { h with pipes := fun other r hr => h.pipes other r (hpipe other r hr) }

theorem known_start (cfg : InterleavingConfig) : Known (start cfg) where
  pipes _ _ hr := absurd hr List.not_mem_nil
  refs t _ hr := by cases t <;> cases hr
  taken _ _ hr := absurd hr List.not_mem_nil

/-! ## The lock of an element -/

/-- An element is locked while a thread has it, and no two threads have it. -/
structure Locks (s : Interleaving cfg) : Prop where
  locked : ∀ r, (s.pipeline.elements r).isLocked = true ↔ ∃ t, (s.pc t).held = some r
  exclusive : ∀ t t' r, (s.pc t).held = some r → (s.pc t').held = some r → t = t'

theorem Locks.free (h : Locks s) {r : Ref} (hr : (s.pipeline.elements r).isLocked = false)
    (t : Thread) : (s.pc t).held ≠ some r := by
  intro hheld
  have := (h.locked r).mpr ⟨t, hheld⟩
  rw [hr] at this
  cases this

theorem goto_held {u : Interleaving cfg} {pc : Pc} (hpc : u.pc = s.pc) (x : Thread) :
    ((u.goto t pc).pc x).held = if x = t then pc.held else (s.pc x).held := by
  rcases goto_pc_cases hpc t pc x with ⟨ht, hx⟩ | ⟨ht, hx⟩
  · rw [hx, if_pos ht]
  · rw [hx, if_neg ht]

theorem Locks.goto (h : Locks s) {u : Interleaving cfg} {pc : Pc} (hpc : u.pc = s.pc)
    (hheld : pc.held = (s.pc t).held)
    (hlocked : ∀ r, (u.pipeline.elements r).isLocked = (s.pipeline.elements r).isLocked) :
    Locks (u.goto t pc) := by
  have hsame : ∀ x, ((u.goto t pc).pc x).held = (s.pc x).held := by
    intro x
    rw [goto_held hpc]
    split_ifs with hx
    · rw [hx, hheld]
    · rfl
  constructor
  · intro r
    simp only [hsame, goto_pipeline, hlocked, h.locked]
  · intro x y r
    rw [hsame, hsame]
    exact h.exclusive x y r

theorem Locks.take (h : Locks s) {u : Interleaving cfg} {pc : Pc} {r : Ref} (hpc : u.pc = s.pc)
    (hbefore : (s.pc t).held = none) (hafter : pc.held = some r)
    (hfree : (s.pipeline.elements r).isLocked = false)
    (hlocked : ∀ x, (u.pipeline.elements x).isLocked =
      if x = r then true else (s.pipeline.elements x).isLocked) : Locks (u.goto t pc) := by
  have hheld : ∀ x y, ((u.goto t pc).pc x).held = some y ↔
      x = t ∧ y = r ∨ (s.pc x).held = some y := by
    intro x y
    rw [goto_held hpc]
    split_ifs with hx
    · simp [hx, hafter, hbefore, eq_comm]
    · simp [hx]
  constructor
  · intro y
    simp only [hheld, goto_pipeline, hlocked]
    split_ifs with hy
    · simp [hy]
    · simp [hy, h.locked]
  · intro x x' y hx hx'
    rcases (hheld x y).mp hx with ⟨rfl, rfl⟩ | hold
    · rcases (hheld x' y).mp hx' with ⟨rfl, -⟩ | hold'
      · rfl
      · exact absurd hold' (h.free hfree x')
    · rcases (hheld x' y).mp hx' with ⟨-, rfl⟩ | hold'
      · exact absurd hold (h.free hfree x)
      · exact h.exclusive x x' y hold hold'

theorem Locks.drop (h : Locks s) {u : Interleaving cfg} {pc : Pc} {r : Ref} (hpc : u.pc = s.pc)
    (hbefore : (s.pc t).held = some r) (hafter : pc.held = none)
    (hlocked : ∀ x, (u.pipeline.elements x).isLocked =
      if x = r then false else (s.pipeline.elements x).isLocked) : Locks (u.goto t pc) := by
  have hheld : ∀ x y, ((u.goto t pc).pc x).held = some y ↔ y ≠ r ∧ (s.pc x).held = some y := by
    intro x y
    rw [goto_held hpc]
    split_ifs with hx
    · subst hx
      simp [hafter, hbefore, eq_comm]
    · refine ⟨fun hy => ⟨?_, hy⟩, fun hy => hy.2⟩
      rintro rfl
      exact hx (h.exclusive x t y hy hbefore)
  constructor
  · intro y
    simp only [hheld, goto_pipeline, hlocked]
    split_ifs with hy
    · simp [hy]
    · simp [hy, h.locked]
  · intro x x' y hx hx'
    exact h.exclusive x x' y ((hheld x y).mp hx).2 ((hheld x' y).mp hx').2

theorem Action.apply_frame {objectId : Nat} {e e' : ServerPipelineElement} {action : Action}
    (h : action.apply objectId e = some e') :
    e'.isLocked = e.isLocked ∧ e'.clientFd = e.clientFd ∧
      e'.isCompletedCompleted = e.isCompletedCompleted := by
  cases action with
  | setRequestString s | setResponseString s =>
    simp only [Action.apply, ServerPipelineElement.setRequestString,
      ServerPipelineElement.setResponseString] at h
    split_ifs at h
    cases h
    exact ⟨rfl, rfl, rfl⟩
  | checkOwner =>
    simp only [Action.apply] at h
    split_ifs at h
    cases h
    exact ⟨rfl, rfl, rfl⟩
  | push | markAsCloseConnectionRequired =>
    cases h
    exact ⟨rfl, rfl, rfl⟩
  | markAsCompleted w | markAsFailed w =>
    cases h
    cases w <;> exact ⟨rfl, rfl, rfl⟩

theorem Touch.isLocked {r : Ref} {pc pc' : Pc}
    {f : ServerPipelineElement → ServerPipelineElement} (h : Touch s t r pc f pc') :
    (f (s.pipeline.elements r)).isLocked = (s.pipeline.elements r).isLocked := by
  cases h with
  | act worker done => exact (Action.apply_frame done).1
  | stamp | disown | mark => rfl

theorem Locks.steps (h : Locks s) (hknown : Known s) (hstep : Steps s t s') : Locks s' := by
  cases hstep with
  | walk mutex hwalk => exact h.goto rfl hwalk.held fun _ => rfl
  | @taken _ r todo here free =>
    refine h.take rfl (congrArg Pc.held here) rfl free fun x => ?_
    by_cases hx : x = r <;> simp [hx]
  | @touched _ r f pc htouch =>
    refine h.goto rfl (htouch.held.2.trans htouch.held.1.symm) fun x => ?_
    by_cases hx : x = r
    · subst hx
      simp [htouch.isLocked]
    · simp [hx]
  | pushed here => exact h.goto rfl (congrArg Pc.held here).symm fun _ => rfl
  | @unlocked _ r here =>
    refine h.drop rfl (congrArg Pc.held here) (rest_held true t) fun x => ?_
    by_cases hx : x = r <;> simp [hx]
  | polled here done =>
    obtain ⟨hpipeline, hpc, -, -⟩ := poll_pipeline done
    exact h.goto hpc (congrArg Pc.held here).symm fun r => by rw [hpipeline]
  | announced inTime here =>
    rcases announce_cases s inTime with heq | ⟨acquired, hpublished, heq⟩
    · rw [heq]
      exact h.goto rfl (congrArg Pc.held here).symm fun _ => rfl
    · rw [heq]
      refine h.goto rfl (congrArg Pc.held here).symm fun r => ?_
      rcases publishConnectN_elements hpublished r with hsame | ⟨hr, fd, -, hnew⟩
      · rw [hsame]
      · have hnobody : (s.pipeline.elements r).isLocked = false := by
          rw [← Bool.not_eq_true, h.locked]
          rintro ⟨t, hheld⟩
          exact absurd (hknown.held hheld) (Nat.not_lt.mpr hr)
        rw [hnew, hnobody]
        rfl
  | removed here => exact h.goto rfl (congrArg Pc.held here).symm fun _ => rfl
  | closed here => exact h.goto (by simp) (congrArg Pc.held here).symm fun _ => by simp
  | released here => exact h.goto rfl (congrArg Pc.held here).symm fun _ => rfl

theorem Locks.maintain (h : Locks s) {stage : Stage} (hstep : s.maintain stage = some s') :
    Locks s' := by
  obtain ⟨pipe, -, rfl⟩ := maintain_pipeline hstep
  exact ⟨h.locked, h.exclusive⟩

theorem locks_start (cfg : InterleavingConfig) : Locks (start cfg) where
  locked r := by
    have hnobody : ∀ t, ((start cfg).pc t).held = none := by
      intro t
      cases t <;> rfl
    simp only [hnobody, reduceCtorEq, exists_false, iff_false]
    exact Bool.false_ne_true
  exclusive t _ _ hr := by cases t <;> cases hr

end MultiplexServer.Interleaving

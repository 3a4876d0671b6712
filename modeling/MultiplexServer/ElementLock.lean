import MultiplexServer.Library.Machine
import MultiplexServer.ServerPipeline

/-! The lock of one element at the grain of its atomic operations: a worker loads
`_is_locked`, exchanges it and stores its id; to unlock it stores id 0 and then clears
`_is_locked`. Between any two of these operations the others may make theirs. -/

namespace MultiplexServer
open ServerPipelineElement

structure LockConfig (ω : Type*) where
  clientFd : Int
  objectId : ω → Nat
  distinct : Function.Injective objectId
  nonzero : ∀ w, objectId w ≠ 0

/-- The operation a worker makes next. Having the lock, a worker may stay at `holding`
for as long as it likes; its step there is the call of `unlock`. -/
inductive LockPc where
  | loading
  | exchanging
  | stamping
  | holding
  | disowning
  | releasing
  deriving DecidableEq, Repr

namespace LockPc

/-- From the exchange that succeeds to the end of `unlock`. -/
def inside : LockPc → Bool
  | .loading | .exchanging => false
  | _ => true

/-- From the return of the lock to the first store of `unlock`. -/
def owns : LockPc → Bool
  | .holding | .disowning => true
  | _ => false

theorem inside_of_owns {pc : LockPc} (h : pc.owns = true) : pc.inside = true := by
  cases pc with
  | holding | disowning => rfl
  | loading | exchanging | stamping | releasing => cases h

end LockPc

structure ElementLock {ω : Type*} (cfg : LockConfig ω) where
  element : ServerPipelineElement
  pc : ω → LockPc

namespace ElementLock

variable {ω : Type*} [DecidableEq ω] {cfg : LockConfig ω}

def start (cfg : LockConfig ω) : ElementLock cfg := ⟨.new cfg.clientFd, fun _ => .loading⟩

def act (s : ElementLock cfg) (w : ω) (element : ServerPipelineElement) (pc : LockPc) :
    ElementLock cfg :=
  ⟨element, Function.update s.pc w pc⟩

def step (w : ω) (s : ElementLock cfg) : ElementLock cfg :=
  match s.pc w with
  | .loading => if s.element.isLocked then s else s.act w s.element .exchanging
  | .exchanging =>
    if s.element.isLocked then s.act w s.element .loading
    else s.act w { s.element with isLocked := true } .stamping
  | .stamping => s.act w { s.element with lockedById := cfg.objectId w } .holding
  | .holding => s.act w s.element .disowning
  | .disowning => s.act w { s.element with lockedById := 0 } .releasing
  | .releasing => s.act w { s.element with isLocked := false } .loading

def machine (cfg : LockConfig ω) : Machine (ElementLock cfg) ω where
  start := start cfg
  step w s := some (s.step w)

/-! ## Undisturbed, the operations are the two functions -/

section Undisturbed

variable {s : ElementLock cfg} {w : ω}

@[simp] theorem act_element (element : ServerPipelineElement) (pc : LockPc) :
    (s.act w element pc).element = element := rfl

@[simp] theorem act_pc_self (element : ServerPipelineElement) (pc : LockPc) :
    (s.act w element pc).pc w = pc :=
  Function.update_self ..

@[simp] theorem act_act (element element' : ServerPipelineElement) (pc pc' : LockPc) :
    (s.act w element pc).act w element' pc' = s.act w element' pc' := by
  simp only [act, Function.update_idem]

theorem step_locked (hpc : s.pc w = .loading)
    (h : s.element.lockWithOwnerLockable (cfg.objectId w) = none) : s.step w = s := by
  have hlocked : s.element.isLocked = true := by
    simpa [lockWithOwnerLockable] using h
  simp only [step, hpc, hlocked, if_true]

theorem steps_lock {element : ServerPipelineElement} (hpc : s.pc w = .loading)
    (h : s.element.lockWithOwnerLockable (cfg.objectId w) = some element) :
    ((s.step w).step w).step w = s.act w element .holding := by
  rw [lockWithOwnerLockable, Option.ite_none_left_eq_some] at h
  obtain ⟨hfree, hlocked⟩ := h
  have hload : s.step w = s.act w s.element .exchanging := by
    simp only [step, hpc, if_neg hfree]
  have hexchange : (s.step w).step w =
      s.act w { s.element with isLocked := true } .stamping := by
    rw [hload]
    simp only [step, act_pc_self, act_element, act_act, if_neg hfree]
  rw [hexchange]
  simp only [step, act_pc_self, act_element, act_act]
  rw [← Option.some.inj hlocked]
  rfl

theorem steps_unlock (hpc : s.pc w = .holding) :
    ((s.step w).step w).step w = s.act w s.element.unlock .loading := by
  have hcall : s.step w = s.act w s.element .disowning := by
    simp only [step, hpc]
  rw [hcall]
  simp only [step, act_pc_self, act_element, act_act]
  rfl

end Undisturbed

/-! ## Who is inside -/

def stamp (s : ElementLock cfg) : Option ω → Nat
  | some w => if (s.pc w).owns then cfg.objectId w else 0
  | none => 0

inductive Handover (w : ω) : Option ω → Option ω → Prop where
  | stay (holder : Option ω) : Handover w holder holder
  | acquire : Handover w none (some w)
  | release : Handover w (some w) none

structure HeldBy (s : ElementLock cfg) (holder : Option ω) : Prop where
  inside : ∀ w, (s.pc w).inside = true ↔ holder = some w
  isLocked : s.element.isLocked = holder.isSome
  lockedById : s.element.lockedById = s.stamp holder

variable {s : ElementLock cfg} {holder : Option ω}

theorem act_pc (w u : ω) (element : ServerPipelineElement) (pc : LockPc) :
    (s.act w element pc).pc u = if u = w then pc else s.pc u := by
  by_cases hu : u = w
  · subst hu
    simp [act]
  · simp [act, hu]

omit [DecidableEq ω] in
theorem heldBy_start : HeldBy (start cfg) none where
  inside _ := iff_of_false Bool.false_ne_true nofun
  isLocked := rfl
  lockedById := rfl

theorem HeldBy.move (h : HeldBy s holder) {w : ω} {pc : LockPc}
    (hinside : pc.inside = (s.pc w).inside) (howns : pc.owns = (s.pc w).owns) :
    HeldBy (s.act w s.element pc) holder where
  inside u := by
    rw [act_pc, ← h.inside u]
    split_ifs with hu
    · rw [hu, hinside]
    · rfl
  isLocked := h.isLocked
  lockedById := by
    have hsame : (s.act w s.element pc).stamp holder = s.stamp holder := by
      cases holder with
      | none => rfl
      | some u =>
        simp only [stamp, act_pc]
        by_cases hu : u = w
        · rw [if_pos hu, howns, hu]
        · rw [if_neg hu]
    rw [hsame]
    exact h.lockedById

theorem HeldBy.enter (h : HeldBy s none) (w : ω) :
    HeldBy (s.act w { s.element with isLocked := true } .stamping) (some w) where
  inside u := by
    rw [act_pc]
    split_ifs with hu
    · exact iff_of_true rfl (by rw [hu])
    · exact iff_of_false (by rw [h.inside u]; nofun) (by simpa using Ne.symm hu)
  isLocked := rfl
  lockedById := by
    simp only [stamp, act_pc, if_true, LockPc.owns, Bool.false_eq_true, if_false]
    exact h.lockedById

theorem HeldBy.store {w : ω} (h : HeldBy s (some w)) {pc : LockPc} (hinside : pc.inside = true)
    {objectId : Nat} (hid : objectId = if pc.owns then cfg.objectId w else 0) :
    HeldBy (s.act w { s.element with lockedById := objectId } pc) (some w) where
  inside u := by
    rw [act_pc]
    split_ifs with hu
    · exact iff_of_true hinside (by rw [hu])
    · exact h.inside u
  isLocked := h.isLocked
  lockedById := by
    simp only [stamp, act_pc, if_true]
    exact hid

theorem HeldBy.leave {w : ω} (h : HeldBy s (some w)) (hpc : s.pc w = .releasing) :
    HeldBy (s.act w { s.element with isLocked := false } .loading) none where
  inside u := by
    rw [act_pc]
    split_ifs with hu
    · exact iff_of_false Bool.false_ne_true nofun
    · refine iff_of_false (fun hin => hu ?_) nofun
      exact (Option.some.inj ((h.inside u).mp hin)).symm
  isLocked := rfl
  lockedById := by
    have hid := h.lockedById
    simp only [stamp, hpc, LockPc.owns, Bool.false_eq_true, if_false] at hid
    exact hid

theorem HeldBy.step (h : HeldBy s holder) (w : ω) :
    ∃ holder', Handover w holder holder' ∧ HeldBy (s.step w) holder' := by
  have hself : (s.pc w).inside = true → holder = some w := (h.inside w).mp
  cases hpc : s.pc w with
  | loading =>
    simp only [ElementLock.step, hpc]
    split_ifs
    · exact ⟨holder, .stay holder, h⟩
    · exact ⟨holder, .stay holder, h.move (by rw [hpc]; rfl) (by rw [hpc]; rfl)⟩
  | exchanging =>
    simp only [ElementLock.step, hpc]
    cases hlocked : s.element.isLocked with
    | true =>
      simp only [if_true]
      exact ⟨holder, .stay holder, h.move (by rw [hpc]; rfl) (by rw [hpc]; rfl)⟩
    | false =>
      obtain rfl : holder = none := by
        rw [h.isLocked] at hlocked
        simpa using hlocked
      simp only [Bool.false_eq_true, if_false]
      exact ⟨some w, .acquire, h.enter w⟩
  | stamping =>
    obtain rfl := hself (by rw [hpc]; rfl)
    simp only [ElementLock.step, hpc]
    exact ⟨some w, .stay _, h.store rfl rfl⟩
  | holding =>
    simp only [ElementLock.step, hpc]
    exact ⟨holder, .stay holder, h.move (by rw [hpc]; rfl) (by rw [hpc]; rfl)⟩
  | disowning =>
    obtain rfl := hself (by rw [hpc]; rfl)
    simp only [ElementLock.step, hpc]
    exact ⟨some w, .stay _, h.store rfl rfl⟩
  | releasing =>
    obtain rfl := hself (by rw [hpc]; rfl)
    simp only [ElementLock.step, hpc]
    exact ⟨none, .release, h.leave hpc⟩

theorem heldBy_of_reachable (h : (machine cfg).Reachable s) : ∃ holder, HeldBy s holder := by
  refine h.invariant (I := fun s => ∃ holder, HeldBy s holder) ⟨none, heldBy_start⟩ ?_
  rintro s t w - ⟨holder, hs⟩ hstep
  cases hstep
  obtain ⟨holder', -, hheld⟩ := hs.step w
  exact ⟨holder', hheld⟩

omit [DecidableEq ω] in
theorem HeldBy.exclusive (h : HeldBy s holder) {w w' : ω} (hw : (s.pc w).inside = true)
    (hw' : (s.pc w').inside = true) : w = w' := by
  have hfirst : holder = some w := (h.inside w).mp hw
  have hsecond : holder = some w' := (h.inside w').mp hw'
  exact Option.some.inj (hfirst.symm.trans hsecond)

omit [DecidableEq ω] in
theorem HeldBy.owner_iff (h : HeldBy s holder) (w : ω) :
    s.element.lockedById = cfg.objectId w ↔ (s.pc w).owns = true := by
  rw [h.lockedById]
  constructor
  · intro hid
    cases holder with
    | none => exact absurd hid.symm (cfg.nonzero w)
    | some u =>
      simp only [stamp] at hid
      split_ifs at hid with howns
      · rwa [← cfg.distinct hid]
      · exact absurd hid.symm (cfg.nonzero w)
  · intro howns
    rw [(h.inside w).mp (LockPc.inside_of_owns howns)]
    exact if_pos howns

theorem publishTo_ok_iff (stage : Stage) (mark : ServerPipelineElement → ServerPipelineElement)
    (p : ServerPipeline) (objectId : Nat) (r : Ref) :
    (ServerPipeline.publishTo stage mark p objectId r).1 = true ↔
      (p.elements r).lockedById = objectId := by
  unfold ServerPipeline.publishTo
  split_ifs with howner
  · exact iff_of_false (by simp) howner
  · exact iff_of_true rfl (not_not.mp howner)

/-- In every interleaving at most one worker is inside, the element carries its id from
the return of the lock to the first store of `unlock`, and the owner checks pass then
for it and for nobody else. -/
theorem element_lock_exclusive (h : (machine cfg).Reachable s) :
    (∀ w w', (s.pc w).inside = true → (s.pc w').inside = true → w = w') ∧
    (∀ w, (s.pc w).owns = true → s.element.lockedById = cfg.objectId w) ∧
    ∀ holder, (s.pc holder).owns = true →
      ∀ (p : ServerPipeline) (r : Ref),
        (p.elements r).lockedById = s.element.lockedById → ∀ w,
        ((p.publishToDatamodelPipe (cfg.objectId w) r).1 = true ↔ w = holder) ∧
        ((p.publishToResponsePipe (cfg.objectId w) r).1 = true ↔ w = holder) ∧
        ((p.publishToCompletedPipe (cfg.objectId w) r).1 = true ↔ w = holder) := by
  obtain ⟨found, hs⟩ := heldBy_of_reachable h
  refine ⟨fun w w' => hs.exclusive, fun w howns => (hs.owner_iff w).mpr howns,
    fun holder hholder p r hr w => ?_⟩
  have howner : (p.elements r).lockedById = cfg.objectId w ↔ w = holder := by
    rw [hr, hs.owner_iff w]
    constructor
    · intro howns
      exact hs.exclusive (LockPc.inside_of_owns howns) (LockPc.inside_of_owns hholder)
    · rintro rfl
      exact hholder
  exact ⟨(publishTo_ok_iff _ _ _ _ _).trans howner, (publishTo_ok_iff _ _ _ _ _).trans howner,
    (publishTo_ok_iff _ _ _ _ _).trans howner⟩

def twoWorkers : LockConfig Bool where
  clientFd := 4
  objectId w := if w then 1 else 2
  distinct a b h := by cases a <;> cases b <;> simp_all
  nonzero := by decide

theorem element_lock_exclusive_two : ∃ s : ElementLock twoWorkers,
    (machine twoWorkers).run [true, false, true, false, true] (start twoWorkers) = some s ∧
    s.pc true = .holding ∧ s.pc false = .loading ∧
    ∀ (p : ServerPipeline) (r : Ref), (p.elements r).lockedById = s.element.lockedById →
      (p.publishToDatamodelPipe 1 r).1 = true ∧ (p.publishToDatamodelPipe 2 r).1 = false := by
  obtain ⟨s, hrun⟩ : ∃ s,
      (machine twoWorkers).run [true, false, true, false, true] (start twoWorkers) = some s :=
    ⟨_, rfl⟩
  have hs := Option.some.inj hrun
  subst hs
  refine ⟨_, hrun, rfl, rfl, fun p r hr => ?_⟩
  have howner := (element_lock_exclusive (Machine.reachable_of_run hrun)).2.2 true rfl p r hr
  refine ⟨(howner true).1.mpr rfl, Bool.eq_false_iff.mpr fun hpublished => ?_⟩
  exact absurd ((howner false).1.mp hpublished) Bool.false_ne_true

end ElementLock

end MultiplexServer

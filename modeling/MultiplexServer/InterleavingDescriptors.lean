import MultiplexServer.ConnectionAccounts
import MultiplexServer.InterleavingService

/-! Whose descriptor a worker reads and writes. The listener closes a descriptor only while
it has the element, and one that is not yet marked as completed keeps its connection; so
a worker that gets the element before that mark works on the right client. -/

namespace MultiplexServer

def Pc.settling : Pc → Option Ref
  | .closing r | .marking r => some r
  | _ => none

def Pc.candidate : Pc → Option Ref
  | .loading r _ | .exchanging r _ => some r
  | .unlocking _ | .running _ _ => none
  | pc => pc.held

namespace Interleaving
open Strings NetworkConnections ServerPipeline

variable {cfg : InterleavingConfig} {s s' : Interleaving cfg} {t : Thread}

def carried (s : Interleaving cfg) (r : Ref) : Option Int :=
  if (s.pipeline.elements r).isCompletedCompleted ∨ (s.pc .listener).settling = some r then none
  else some (s.pipeline.elements r).clientFd

/-- Every connection is accounted for, and descriptors denote what they should. -/
structure Open (s : Interleaving cfg) : Prop where
  known : Known s
  locks : Locks s
  accounts : ConnectionAccounts s.connections (fun fd => (s.descriptors fd).isSome)
    s.pipeline.created s.carried
  origin : ∀ r < s.pipeline.created, ∀ fd, s.carried r = some fd →
    s.descriptors fd = some (s.origin r)
  closing : ∀ r, s.pc .listener = .closing r →
    (s.pipeline.elements r).clientFd ∉ fds s.connections.networkConnections
  candidate : ∀ r, (s.pc .listener).candidate = some r →
    (s.pipeline.elements r).isCompletedCompleted = false
  inUse : ∀ i r, cfg.role i ≠ .datamodel → (s.pc (.worker i)).held = some r →
    (s.pipeline.elements r).isCompletedCompleted = false

theorem Open.descriptor (h : Open s) {i : Nat} {r : Ref} (hrole : cfg.role i ≠ .datamodel)
    (hheld : (s.pc (.worker i)).held = some r) :
    s.descriptors (s.pipeline.elements r).clientFd = some (s.origin r) := by
  apply h.origin r (h.known.held hheld)
  have hdue := h.inUse i r hrole hheld
  have hlistener : (s.pc .listener).settling ≠ some r := by
    intro hsettling
    have hboth : (s.pc .listener).held = some r := by
      cases hpc : s.pc .listener <;> simp_all [Pc.settling, Pc.held]
    cases h.locks.exclusive .listener (.worker i) r hboth hheld
  simp [carried, hdue, hlistener]

/-! ## Steps that leave the connections alone -/

theorem Walk.settling {pc pc' : Pc} (h : Walk s t pc pc') :
    pc.settling = none ∧ pc'.settling = none := by
  cases h with
  | empty | timeout | nothing => exact ⟨rfl, by cases t <;> rfl⟩
  | _ => exact ⟨rfl, rfl⟩

theorem Walk.candidate {pc pc' : Pc} {r : Ref} (h : Walk s t pc pc')
    (hcandidate : pc'.candidate = some r) : pc.candidate = some r ∨
      (s.pipeline.elements r).completedPredicate (stage cfg t) = false := by
  cases h with
  | empty | timeout | nothing => cases t <;> cases hcandidate
  | tested due =>
    cases hcandidate
    exact .inr due
  | notEmpty | acquired | exhausted | skipped | busy | lost | served | brokenOff =>
    cases hcandidate
  | free | found | remove | release => exact .inl hcandidate

theorem Open.goto (h : Open s) {u : Interleaving cfg} {pc : Pc} (hpc : u.pc = s.pc)
    (hknown : Known (u.goto t pc)) (hlocks : Locks (u.goto t pc))
    (hconnections : u.connections = s.connections) (hdescriptors : u.descriptors = s.descriptors)
    (horigin : u.origin = s.origin) (hcreated : u.pipeline.created = s.pipeline.created)
    (hfd : ∀ r, (u.pipeline.elements r).clientFd = (s.pipeline.elements r).clientFd)
    (hcompleted : ∀ r, (u.pipeline.elements r).isCompletedCompleted =
      (s.pipeline.elements r).isCompletedCompleted)
    (hsettling : (s.pc t).settling = none ∧ pc.settling = none)
    (hcandidate : t = .listener → ∀ r, pc.candidate = some r →
      (s.pipeline.elements r).isCompletedCompleted = false)
    (hinUse : ∀ i, t = .worker i → cfg.role i ≠ .datamodel → ∀ r, pc.held = some r →
      (s.pipeline.elements r).isCompletedCompleted = false) : Open (u.goto t pc) := by
  have hlistener : ((u.goto t pc).pc .listener).settling = (s.pc .listener).settling := by
    rcases goto_pc_cases hpc t pc .listener with ⟨rfl, hx⟩ | ⟨-, hx⟩
    · rw [hx, hsettling.1, hsettling.2]
    · rw [hx]
  have hcarried : (u.goto t pc).carried = s.carried := by
    funext r
    simp only [carried, hlistener, goto_pipeline, hfd, hcompleted]
  refine ⟨hknown, hlocks, ?_, ?_, fun r hr => ?_, fun r hr => ?_, fun i r hrole hr => ?_⟩
  · simp only [goto_connections, goto_descriptors, goto_pipeline, hconnections, hdescriptors,
      hcreated, hcarried]
    exact h.accounts
  · simp only [goto_descriptors, goto_pipeline, goto_origin, hdescriptors, horigin, hcreated,
      hcarried]
    exact h.origin
  · simp only [goto_pipeline, goto_connections, hfd, hconnections]
    rcases goto_pc_cases hpc t pc .listener with ⟨-, hx⟩ | ⟨-, hx⟩
    · rw [hx] at hr
      rw [hr] at hsettling
      cases hsettling.2
    · exact h.closing r (hx ▸ hr)
  · simp only [goto_pipeline, hcompleted]
    rcases goto_pc_cases hpc t pc .listener with ⟨rfl, hx⟩ | ⟨-, hx⟩
    · exact hcandidate rfl r (hx ▸ hr)
    · exact h.candidate r (hx ▸ hr)
  · simp only [goto_pipeline, hcompleted]
    rcases goto_pc_cases hpc t pc (.worker i) with ⟨rfl, hx⟩ | ⟨-, hx⟩
    · exact hinUse i rfl hrole r (hx ▸ hr)
    · exact h.inUse i r hrole (hx ▸ hr)

/-! ## The listener's steps -/

theorem carried_goto {u : Interleaving cfg} {pc : Pc} (r : Ref) :
    (u.goto .listener pc).carried r =
      if (u.pipeline.elements r).isCompletedCompleted ∨ pc.settling = some r then none
      else some (u.pipeline.elements r).clientFd := by
  simp [carried]

theorem Open.carried_of_candidate (h : Open s) {r : Ref}
    (hcandidate : (s.pc .listener).candidate = some r)
    (hsettling : (s.pc .listener).settling = none) :
    s.carried r = some (s.pipeline.elements r).clientFd := by
  simp [carried, h.candidate r hcandidate, hsettling]

theorem Open.inUse_listener (h : Open s) {u : Interleaving cfg} {pc : Pc} (hpc : u.pc = s.pc)
    (hcompleted : ∀ r < s.pipeline.created,
      (∀ i, (s.pc (.worker i)).held = some r → (u.pipeline.elements r).isCompletedCompleted =
        (s.pipeline.elements r).isCompletedCompleted)) (i : Nat) (r : Ref)
    (hrole : cfg.role i ≠ .datamodel)
    (hheld : ((u.goto .listener pc).pc (.worker i)).held = some r) :
    ((u.goto .listener pc).pipeline.elements r).isCompletedCompleted = false := by
  have hold : (s.pc (.worker i)).held = some r := by
    simpa [hpc] using hheld
  rw [goto_pipeline, hcompleted r (h.known.held hold) i hold]
  exact h.inUse i r hrole hold

theorem Open.polled (h : Open s) {answer : Answer} {u : Interleaving cfg}
    (here : s.pc .listener = .polling) (done : s.poll answer = some u)
    (hknown : Known (u.goto .listener .announcing))
    (hlocks : Locks (u.goto .listener .announcing)) : Open (u.goto .listener .announcing) := by
  obtain ⟨hpipeline, hpc, -, horigin⟩ := poll_pipeline done
  have hcarried : (u.goto .listener .announcing).carried = s.carried := by
    funext r
    rw [carried_goto, hpipeline, carried, here]
    rfl
  refine ⟨hknown, hlocks, ?_, ?_, by simp, by simp [Pc.candidate, Pc.held],
    h.inUse_listener hpc fun r _ _ _ => by rw [hpipeline]⟩
  · rw [hcarried, goto_pipeline, hpipeline]
    obtain ⟨sockets, rfl | rfl | ⟨newFd, slots, -, hclosed, hslots, rfl⟩⟩ := poll_cases done
    · exact h.accounts.select sockets
    · exact h.accounts.select sockets
    · refine (h.accounts.add (by simp [hclosed]) hslots (fun fd hfd => ?_) ?_).1.select sockets
      · by_cases hnew : fd = newFd
        · simp [hnew]
        · simpa [hnew] using hfd
      · simp
  · rw [hcarried, goto_pipeline, hpipeline, goto_origin, horigin, goto_descriptors]
    intro r hr fd hfd
    have hold := h.origin r hr fd hfd
    obtain ⟨sockets, rfl | rfl | ⟨newFd, slots, -, hclosed, hslots, rfl⟩⟩ := poll_cases done
    · exact hold
    · exact hold
    · have hne : fd ≠ newFd := by
        rintro rfl
        rw [hclosed] at hold
        cases hold
      simpa [hne] using hold

theorem Open.announced (h : Open s) (inTime : Bool) (here : s.pc .listener = .announcing)
    (hknown : Known ((s.announce inTime).goto .listener .idle))
    (hlocks : Locks ((s.announce inTime).goto .listener .idle)) :
    Open ((s.announce inTime).goto .listener .idle) := by
  have hcarried : ∀ r, s.carried r = if (s.pipeline.elements r).isCompletedCompleted then none
      else some (s.pipeline.elements r).clientFd := by
    intro r
    simp [carried, here, Pc.settling]
  rcases announce_cases s inTime with heq | ⟨acquired, hpublished, heq⟩
  · rw [heq] at hknown hlocks ⊢
    have hsame : (({ s with connections := s.connections.getActiveConnections } :
        Interleaving cfg).goto .listener .idle).carried = s.carried := by
      funext r
      rw [carried_goto, hcarried]
      simp [Pc.settling]
    refine ⟨hknown, hlocks, ?_, ?_, by simp, by simp [Pc.candidate, Pc.held],
      h.inUse_listener rfl fun _ _ _ _ => rfl⟩
    · rw [hsame]
      exact h.accounts.getActive
    · rw [hsame]
      exact h.origin
  · rw [heq] at hknown hlocks ⊢
    have hold : ∀ r < s.pipeline.created, (s.pipeline.publishConnectN acquired
        s.connections.getActiveConnections.activeConnections).2.elements r =
        s.pipeline.elements r := fun r hr => publishConnectN_old hpublished hr
    refine ⟨hknown, hlocks, ?_, ?_, by simp, by simp [Pc.candidate, Pc.held],
      h.inUse_listener rfl fun r hr _ _ => by rw [hold r hr]⟩
    · simp only [goto_pipeline, goto_connections, publishConnectN_created hpublished]
      refine h.accounts.getActive.publish (fun r hr => ?_) fun i fd hfd => ?_
      · rw [carried_goto, hcarried, hold r hr]
        simp [Pc.settling]
      · rw [carried_goto, publishConnectN_new hpublished hfd]
        rfl
    · intro r hr fd hfd
      simp only [goto_descriptors, goto_origin]
      rw [carried_goto] at hfd
      by_cases hnew : r < s.pipeline.created
      · rw [if_neg (Nat.not_le.mpr hnew)]
        apply h.origin r hnew
        rw [hcarried, ← hold r hnew]
        simpa [Pc.settling] using hfd
      · have hlt : r - s.pipeline.created <
            s.connections.getActiveConnections.activeConnections.length := by
          rw [goto_pipeline, publishConnectN_created hpublished] at hr
          omega
        have hget := List.getElem?_eq_getElem hlt
        have hmade := publishConnectN_new hpublished hget
        rw [Nat.add_sub_cancel' (Nat.not_lt.mp hnew)] at hmade
        rw [hmade] at hfd
        cases hfd
        have hopen := h.accounts.getActive.opened _
          (h.accounts.getActive.mem_fds_of_active (List.getElem_mem hlt))
        obtain ⟨connection, hconnection⟩ := Option.isSome_iff_exists.mp hopen
        rw [if_pos (Nat.not_lt.mp hnew), hget, Option.bind_some]
        simp only [ServerPipelineElement.new, hconnection, Option.getD_some]

theorem Open.carried_settling (h : Open s) {r : Ref} (hcandidate : (s.pc .listener).candidate = some r)
    (hsettling : (s.pc .listener).settling = none) (pc : Pc) (hpc : pc.settling = some r)
    (slots : List (Option NetworkConnection)) :
    s.carried r = some (s.pipeline.elements r).clientFd ∧
      ((s.setTable slots).goto .listener pc).carried r = none ∧
      ∀ x, x ≠ r → ((s.setTable slots).goto .listener pc).carried x = s.carried x := by
  refine ⟨h.carried_of_candidate hcandidate hsettling, ?_, fun x hx => ?_⟩
  · simp [carried_goto, hpc]
  · rw [carried_goto, carried, hpc, hsettling]
    simp [setTable, Ne.symm hx]

theorem Open.settle (h : Open s) {r : Ref} {pc : Pc}
    (hcandidate : (s.pc .listener).candidate = some r)
    (hsettling : (s.pc .listener).settling = none) (hpc : pc.settling = some r)
    {slots : List (Option NetworkConnection)}
    (haccounts : ConnectionAccounts (s.setTable slots).connections
      (fun fd => (s.descriptors fd).isSome) s.pipeline.created
      ((s.setTable slots).goto .listener pc).carried)
    (hclosing : pc = .closing r → (s.pipeline.elements r).clientFd ∉ fds slots)
    (hknown : Known ((s.setTable slots).goto .listener pc))
    (hlocks : Locks ((s.setTable slots).goto .listener pc)) :
    Open ((s.setTable slots).goto .listener pc) := by
  obtain ⟨-, hnone, hothers⟩ := h.carried_settling hcandidate hsettling pc hpc slots
  have hstands : ∀ x, pc.settling = some x → x = r := fun x hx =>
    Option.some.inj (hx.symm.trans hpc)
  refine ⟨hknown, hlocks, haccounts, fun x hx fd hfd => ?_, fun x hx => ?_, fun x hx => ?_,
    h.inUse_listener rfl fun _ _ _ _ => rfl⟩
  · have hne : x ≠ r := by
      rintro rfl
      rw [hnone] at hfd
      cases hfd
    rw [hothers x hne] at hfd
    exact h.origin x hx fd hfd
  · rw [goto_pc, Function.update_self] at hx
    subst hx
    obtain rfl := hstands x rfl
    exact hclosing rfl
  · rw [goto_pc, Function.update_self] at hx
    have hsame : x = r := by
      cases pc <;> first | exact hstands x hx | cases hpc
    rw [hsame]
    exact h.candidate r hcandidate

theorem Open.removed (h : Open s) {r : Ref} (here : s.pc .listener = .removing r)
    {u : Interleaving cfg} (hu : u = s.setTable ((removeConnection
      (s.pipeline.elements r).clientFd s.connections.networkConnections).getD
        s.connections.networkConnections))
    (hknown : Known (u.goto .listener (.closing r)))
    (hlocks : Locks (u.goto .listener (.closing r))) : Open (u.goto .listener (.closing r)) := by
  have hr : r < s.pipeline.created := h.known.held (congrArg Pc.held here)
  have hcandidate : (s.pc .listener).candidate = some r := by rw [here]; rfl
  have hsettling : (s.pc .listener).settling = none := by rw [here]; rfl
  obtain ⟨hcarried, hnone, hothers⟩ := h.carried_settling hcandidate hsettling (.closing r) rfl []
  obtain ⟨slots, hslots, hgone, -, haccounts⟩ := h.accounts.remove hr hcarried hnone hothers
  rw [hslots, Option.getD_some] at hu
  subst hu
  exact h.settle hcandidate hsettling rfl haccounts (fun _ => hgone) hknown hlocks

theorem Open.released (h : Open s) {r : Ref} (here : s.pc .listener = .releasing r)
    {u : Interleaving cfg} (hu : u = s.setTable ((unlockConnection
      (s.pipeline.elements r).clientFd s.connections.networkConnections).getD
        s.connections.networkConnections))
    (hknown : Known (u.goto .listener (.marking r)))
    (hlocks : Locks (u.goto .listener (.marking r))) : Open (u.goto .listener (.marking r)) := by
  have hr : r < s.pipeline.created := h.known.held (congrArg Pc.held here)
  have hcandidate : (s.pc .listener).candidate = some r := by rw [here]; rfl
  have hsettling : (s.pc .listener).settling = none := by rw [here]; rfl
  obtain ⟨hcarried, hnone, hothers⟩ := h.carried_settling hcandidate hsettling (.marking r) rfl []
  obtain ⟨slots, hslots, -, -, haccounts⟩ := h.accounts.unlock hr hcarried hnone hothers
  rw [hslots, Option.getD_some] at hu
  subst hu
  exact h.settle hcandidate hsettling rfl haccounts Pc.noConfusion hknown hlocks

theorem close_descriptors (s : Interleaving cfg) {fd other : Int} (h : other ≠ fd) :
    (s.close fd).descriptors other = s.descriptors other := by
  unfold close
  split_ifs
  · exact Function.update_of_ne h _ _
  · rfl

theorem Open.closed (h : Open s) {r : Ref} (here : s.pc .listener = .closing r)
    {u : Interleaving cfg} (hu : u = s.close (s.pipeline.elements r).clientFd)
    (hknown : Known (u.goto .listener (.marking r)))
    (hlocks : Locks (u.goto .listener (.marking r))) : Open (u.goto .listener (.marking r)) := by
  subst hu
  have hgone := h.closing r here
  have hcarried : ((s.close (s.pipeline.elements r).clientFd).goto .listener
      (.marking r)).carried = s.carried := by
    funext x
    rw [carried_goto, carried, here, close_pipeline]
    rfl
  refine ⟨hknown, hlocks, ?_, fun x hx fd hfd => ?_, fun x hx => ?_, fun x hx => ?_,
    h.inUse_listener (by simp) fun _ _ _ _ => by simp⟩
  · rw [hcarried]
    simp only [goto_connections, goto_pipeline, goto_descriptors, close_connections,
      close_pipeline]
    refine h.accounts.congr (fun fd hfd hopen => ?_) fun _ _ => rfl
    have hne : fd ≠ (s.pipeline.elements r).clientFd := fun heq => hgone (heq ▸ hfd)
    rwa [close_descriptors s hne]
  · rw [goto_pipeline, close_pipeline] at hx
    rw [hcarried] at hfd
    have hne : fd ≠ (s.pipeline.elements r).clientFd := fun heq =>
      hgone (heq ▸ h.accounts.mem_fds_of_carried hx hfd)
    rw [goto_descriptors, goto_origin, close_descriptors s hne, close_origin]
    exact h.origin x hx fd hfd
  · rw [goto_pc, Function.update_self] at hx
    cases hx
  · rw [goto_pc, Function.update_self] at hx
    cases hx
    rw [goto_pipeline, close_pipeline]
    exact h.candidate r (by rw [here]; rfl)

theorem Open.marked (h : Open s) {r : Ref} (here : s.pc .listener = .marking r)
    {u : Interleaving cfg}
    (hu : u = { s with pipeline := s.pipeline.modify r .markAsCompletedCompleted })
    (hknown : Known (u.goto .listener (.running r [])))
    (hlocks : Locks (u.goto .listener (.running r []))) :
    Open (u.goto .listener (.running r [])) := by
  subst hu
  have hcarried : ∀ x, (({ s with pipeline := s.pipeline.modify r .markAsCompletedCompleted } :
      Interleaving cfg).goto .listener (.running r [])).carried x = s.carried x := by
    intro x
    rw [carried_goto, carried, here]
    by_cases hx : x = r
    · subst hx
      simp [Pc.settling, ServerPipelineElement.markAsCompletedCompleted]
    · simp [Pc.settling, hx, Ne.symm hx]
  refine ⟨hknown, hlocks, ?_, fun x hx fd hfd => ?_, fun x hx => ?_, fun x hx => ?_,
    h.inUse_listener rfl fun x _ i hheld => ?_⟩
  · exact h.accounts.congr (fun _ _ => id) fun x _ => hcarried x
  · rw [hcarried] at hfd
    exact h.origin x hx fd hfd
  · rw [goto_pc, Function.update_self] at hx
    cases hx
  · rw [goto_pc, Function.update_self] at hx
    cases hx
  · have hne : x ≠ r := by
      rintro rfl
      cases h.locks.exclusive .listener (.worker i) x (congrArg Pc.held here) hheld
    simp [hne]

/-! ## Every step -/

theorem Touch.cases_mark {r : Ref} {pc pc' : Pc}
    {f : ServerPipelineElement → ServerPipelineElement} (h : Touch s t r pc f pc') :
    (t = .listener ∧ pc = .marking r ∧ f = .markAsCompletedCompleted ∧ pc' = .running r []) ∨
      ((f (s.pipeline.elements r)).clientFd = (s.pipeline.elements r).clientFd ∧
        (f (s.pipeline.elements r)).isCompletedCompleted =
          (s.pipeline.elements r).isCompletedCompleted ∧
        (pc.settling = none ∧ pc'.settling = none) ∧
        ∀ x, pc'.candidate = some x → pc.candidate = some x) := by
  cases h with
  | stamp | disown => exact .inr ⟨rfl, rfl, ⟨rfl, rfl⟩, fun _ => id⟩
  | act worker done =>
    obtain ⟨-, hfd, hcompleted⟩ := Action.apply_frame done
    exact .inr ⟨hfd, hcompleted, ⟨rfl, rfl⟩, fun _ => id⟩
  | mark listener => exact .inl ⟨listener, rfl, rfl, rfl⟩

theorem Open.steps (h : Open s) (hstep : Steps s t s')
    (hunfinished : ∀ i, t = .worker i → cfg.role i ≠ .datamodel → ∀ r todo,
      s.pc t = .exchanging r todo → (s.pipeline.elements r).isLocked = false →
      (s.pipeline.elements r).isCompletedCompleted = false) : Open s' := by
  have hknown := h.known.steps hstep
  have hlocks := h.locks.steps h.known hstep
  cases hstep with
  | walk mutex hwalk =>
    refine h.goto rfl hknown hlocks rfl rfl rfl rfl (fun _ => rfl) (fun _ => rfl)
      hwalk.settling (fun ht r hr => ?_) fun i ht hrole r hr => ?_
    · subst ht
      rcases hwalk.candidate hr with hold | hdue
      · exact h.candidate r hold
      · exact hdue
    · subst ht
      exact h.inUse i r hrole (hwalk.held ▸ hr)
  | @taken _ r todo here free =>
    refine h.goto rfl hknown hlocks rfl rfl rfl rfl (fun x => ?_) (fun x => ?_)
      ⟨by rw [here]; rfl, rfl⟩ (fun ht x hx => ?_) fun i ht hrole x hx => ?_
    · by_cases hx : x = r <;> simp [hx]
    · by_cases hx : x = r <;> simp [hx]
    · subst ht
      cases hx
      exact h.candidate r (by rw [here]; rfl)
    · cases hx
      exact hunfinished i ht hrole r todo here free
  | @touched _ r f pc htouch =>
    rcases htouch.cases_mark with ⟨rfl, here, rfl, rfl⟩ | ⟨hfd, hcompleted, hsettling, hcandidate⟩
    · exact h.marked here rfl hknown hlocks
    · refine h.goto rfl hknown hlocks rfl rfl rfl rfl (fun x => ?_) (fun x => ?_) hsettling
        (fun ht x hx => ?_) fun i ht hrole x hx => ?_
      · by_cases hx : x = r
        · subst hx
          simp [hfd]
        · simp [hx]
      · by_cases hx : x = r
        · subst hx
          simp [hcompleted]
        · simp [hx]
      · subst ht
        exact h.candidate x (hcandidate x hx)
      · subst ht
        rw [htouch.held.2, ← htouch.held.1] at hx
        exact h.inUse i x hrole hx
  | @pushed i r stage actions here =>
    refine h.goto rfl hknown hlocks rfl rfl rfl rfl (fun _ => rfl) (fun _ => rfl)
      ⟨by rw [here]; rfl, rfl⟩ (fun ht => by cases ht) fun j ht hrole x hx => ?_
    cases ht
    exact h.inUse i x hrole (by rw [here]; exact hx)
  | @unlocked _ r here =>
    refine h.goto rfl hknown hlocks rfl rfl rfl rfl (fun x => ?_) (fun x => ?_)
      ⟨by rw [here]; rfl, by cases t <;> rfl⟩ (fun ht x hx => ?_) fun i ht hrole x hx => ?_
    · by_cases hx : x = r <;> simp [hx]
    · by_cases hx : x = r <;> simp [hx]
    · subst ht
      cases hx
    · rw [rest_held] at hx
      cases hx
  | polled here done => exact h.polled here done hknown hlocks
  | announced inTime here => exact h.announced inTime here hknown hlocks
  | removed here => exact h.removed here rfl hknown hlocks
  | closed here => exact h.closed here rfl hknown hlocks
  | released here => exact h.released here rfl hknown hlocks

theorem Open.maintain (h : Open s) {stage : Stage} (hstep : s.maintain stage = some s') :
    Open s' := by
  have hknown := h.known.maintain hstep
  have hlocks := h.locks.maintain hstep
  obtain ⟨pipe, -, rfl⟩ := maintain_pipeline hstep
  exact ⟨hknown, hlocks, h.accounts, h.origin, h.closing, h.candidate, h.inUse⟩

theorem open_start (cfg : InterleavingConfig) : Open (start cfg) where
  known := known_start cfg
  locks := locks_start cfg
  accounts := ConnectionAccounts.new cfg.maximumClients _ _
  origin r hr := absurd hr (Nat.not_lt_zero r)
  closing _ hr := by cases hr
  candidate _ hr := by cases hr
  inUse _ _ _ hr := by cases hr

/-- Whenever the exchange of a reader or a writer succeeds, the listener is not yet done
with the element. -/
def unfinished : Tick → Interleaving cfg → Bool
  | .thread (.worker i) _, s =>
    match s.pc (.worker i) with
    | .exchanging r _ => cfg.role i = .datamodel || (s.pipeline.elements r).isLocked ||
      !(s.pipeline.elements r).isCompletedCompleted
    | _ => true
  | _, _ => true

theorem Open.step (h : Open s) {tick : Tick} (hunfinished : unfinished tick s = true)
    (hstep : step tick s = some s') : Open s' := by
  cases tick with
  | maintenance stage => exact h.maintain hstep
  | thread t answer =>
    refine h.steps (steps_of_step hstep) fun i ht hrole r todo here hfree => ?_
    subst ht
    simpa [unfinished, here, hfree, hrole] using hunfinished

/-- While a reader or a writer is at its calls of `recv` or `send`, the descriptor denotes
the connection that the element was made for, in every run in which neither gets an
element that the listener is done with. -/
theorem descriptor_of_serving
    (h : (machine cfg).ReachableUnder (fun a s => unfinished a s = true) s) {i : Nat} {r : Ref}
    (hrole : cfg.role i = .reader ∨ cfg.role i = .writer)
    (hserving : s.pc (.worker i) = .serving r) :
    s.descriptors (s.pipeline.elements r).clientFd = some (s.origin r) := by
  have hopen : Open s := h.invariant (open_start cfg) fun _ _ _ hs hunfinished hstep =>
    hs.step hunfinished hstep
  have hnot : cfg.role i ≠ .datamodel := by
    rcases hrole with hrole | hrole <;> rw [hrole] <;> decide
  exact hopen.descriptor hnot (congrArg Pc.held hserving)

theorem descriptor_of_serving_opening :
    ∃ s, (machine twoReaders).runUnder (fun a s => unfinished a s = true) opening
        (start twoReaders) = some s ∧
      s.descriptors (s.pipeline.elements 0).clientFd = some (s.origin 0) := by
  have hrun : ((machine twoReaders).runUnder (fun a s => unfinished a s = true) opening
      (start twoReaders)).map (fun s => s.pc (.worker 0)) = some (.serving 0) := by decide +kernel
  obtain ⟨s, hs, hserving⟩ := Option.map_eq_some_iff.mp hrun
  exact ⟨s, hs, descriptor_of_serving (Machine.reachableUnder_of_run hs) (.inl rfl) hserving⟩

/-- The first reader gives the element up and the listener closes the connection; a new
client gets the same number, and the second reader goes on to read from it. -/
def reused : List Tick :=
  opening ++ ticks 8 (.worker 0) { answerOk with ok := false } ++ ticks 18 .listener answerOk ++
    ticks 1 .listener (polled [3] 4) ++ ticks 4 (.worker 1) answerOk

theorem serving_another_client :
    ∃ s, (machine twoReaders).run reused (start twoReaders) = some s ∧
      (machine twoReaders).Reachable s ∧ s.pc (.worker 1) = .serving 0 ∧
      s.origin 0 = 1 ∧ s.descriptors (s.pipeline.elements 0).clientFd = some 2 := by
  have hrun : ((machine twoReaders).run reused (start twoReaders)).map (fun s =>
      (s.pc (.worker 1), s.origin 0, s.descriptors (s.pipeline.elements 0).clientFd)) =
      some (.serving 0, 1, some 2) := by decide +kernel
  obtain ⟨s, hs, hstate⟩ := Option.map_eq_some_iff.mp hrun
  simp only [Prod.mk.injEq] at hstate
  exact ⟨s, hs, Machine.reachable_of_run hs, hstate⟩

end Interleaving

end MultiplexServer

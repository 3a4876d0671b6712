import Mathlib.Data.List.Nodup
import Mathlib.Logic.Function.Basic
import Mathlib.Tactic.Common

/-! `start_group` and `stop_group` of `c_thread_group`, which make one call for each thread
by way of `collection_to_bool`. A thread is a number, and the set has its own order. -/

namespace MultiplexServer

/-- `result = result && func(elem)` for each element. -/
def collectionToBool {α σ : Type*} (func : α → σ → Bool × σ) (elems : List α) (s : σ) :
    Bool × σ :=
  elems.foldl (fun acc elem => if acc.1 then func elem acc.2 else acc) (true, s)

structure GroupThread where
  started : Bool
  exit : Bool
  deriving DecidableEq

namespace GroupThread

def startThread (thread : GroupThread) : Bool × GroupThread :=
  if !thread.started then (true, { thread with started := true }) else (false, thread)

/-- The loop of `stop_thread_service`, with the flag as each pass reads it and the number
of passes that may follow. -/
def awaitNotAlive (alive : Nat → Bool) (pass : Nat) : Nat → Bool
  | 0 => if !alive pass then true else false
  | limit + 1 => if !alive pass then true else awaitNotAlive alive (pass + 1) limit

def exitLimit (waitServiceExit : Int) : Nat := (waitServiceExit.tdiv 25 + 1).toNat

def stopThread (waitServiceExit : Int) (alive : Nat → Bool) (thread : GroupThread) :
    Bool × GroupThread :=
  let thread := { thread with exit := true }
  (awaitNotAlive alive 0 (exitLimit waitServiceExit), thread)

end GroupThread

structure ActiveThreads where
  inOrder : List Nat
  nodup : inOrder.Nodup

structure GroupCalls where
  threads : Nat → GroupThread
  calls : List (Nat × Bool)

namespace ActiveThreads

def visit (call : Nat → GroupThread → Bool × GroupThread) (t : Nat) (g : GroupCalls) :
    Bool × GroupCalls :=
  let called := call t (g.threads t)
  (called.1, ⟨Function.update g.threads t called.2, g.calls ++ [(t, called.1)]⟩)

def callGroup (call : Nat → GroupThread → Bool × GroupThread) (active : ActiveThreads)
    (threads : Nat → GroupThread) : Bool × GroupCalls :=
  if active.inOrder.isEmpty then (false, ⟨threads, []⟩)
  else collectionToBool (visit call) active.inOrder ⟨threads, []⟩

def startGroup : ActiveThreads → (Nat → GroupThread) → Bool × GroupCalls :=
  callGroup fun _ thread => thread.startThread

/-- `alive` gives the flag of each thread as the passes of its loop read it. -/
def stopGroup (waitServiceExit : Int) (alive : Nat → Nat → Bool) :
    ActiveThreads → (Nat → GroupThread) → Bool × GroupCalls :=
  callGroup fun t thread => thread.stopThread waitServiceExit (alive t)

/-- Each thread of the set is called once and no other, and the answer says whether there
are any and all calls have returned true. -/
structure CallsEvery (active : ActiveThreads) (answer : Bool × GroupCalls) : Prop where
  calls : (answer.2.calls.map Prod.fst).Perm active.inOrder
  result : answer.1 = true ↔ active.inOrder ≠ [] ∧ ∀ c ∈ answer.2.calls, c.2 = true

def reached (ok : Nat → Bool) : List Nat → List Nat
  | [] => []
  | t :: threads => if ok t then t :: reached ok threads else [t]

variable {call : Nat → GroupThread → Bool × GroupThread} {ok : Nat → Bool}

/-! ## The fold -/

section CollectionToBool

variable {α σ : Type*} (func : α → σ → Bool × σ)

theorem foldl_of_failed (elems : List α) {acc : Bool × σ} (h : acc.1 = false) :
    elems.foldl (fun acc elem => if acc.1 then func elem acc.2 else acc) acc = acc := by
  induction elems with
  | nil => rfl
  | cons elem elems ih => rw [List.foldl_cons, h, if_neg Bool.false_ne_true, ih]

theorem collectionToBool_cons (elem : α) (elems : List α) (s : σ) :
    collectionToBool func (elem :: elems) s =
      if (func elem s).1 then collectionToBool func elems (func elem s).2 else func elem s := by
  unfold collectionToBool
  rw [List.foldl_cons, if_pos rfl]
  split_ifs with h
  · rw [← h]
  · exact foldl_of_failed func elems (Bool.eq_false_iff.mpr h)

end CollectionToBool

theorem visit_all {threads : List Nat} (hnodup : threads.Nodup) {g : GroupCalls}
    (hok : ∀ t ∈ threads, (call t (g.threads t)).1 = ok t) :
    (collectionToBool (visit call) threads g).2.calls =
        g.calls ++ (reached ok threads).map (fun t => (t, ok t)) ∧
      (collectionToBool (visit call) threads g).1 = threads.all ok := by
  induction threads generalizing g with
  | nil => exact ⟨(List.append_nil _).symm, rfl⟩
  | cons t threads ih =>
    obtain ⟨ht, hthreads⟩ := List.nodup_cons.mp hnodup
    obtain ⟨hfirst, hrest⟩ := List.forall_mem_cons.mp hok
    have hvisit : (visit call t g).1 = ok t := hfirst
    have hcalls : (visit call t g).2.calls = g.calls ++ [(t, ok t)] := by
      rw [← hfirst]
      rfl
    rw [collectionToBool_cons, hvisit, reached, List.all_cons]
    cases hcall : ok t with
    | true =>
      have hsame : ∀ u ∈ threads, (call u ((visit call t g).2.threads u)).1 = ok u := by
        intro u hu
        have hne : u ≠ t := fun heq => ht (heq ▸ hu)
        have hkept : (visit call t g).2.threads u = g.threads u := Function.update_of_ne hne _ _
        rw [hkept]
        exact hrest u hu
      obtain ⟨hlater, hall⟩ := ih hthreads hsame
      rw [if_pos rfl, if_pos rfl, hlater, hall, hcalls, List.append_assoc, Bool.true_and]
      exact ⟨rfl, rfl⟩
    | false =>
      rw [if_neg Bool.false_ne_true, if_neg Bool.false_ne_true, hcalls, hvisit, hcall]
      exact ⟨by rw [List.map_singleton, hcall], rfl⟩

/-! ## The threads that are reached -/

theorem reached_eq_iff (threads : List Nat) :
    reached ok threads = threads ↔ ∀ t ∈ threads.dropLast, ok t = true := by
  induction threads with
  | nil => simp [reached]
  | cons t threads ih =>
    cases threads with
    | nil => cases hcall : ok t <;> simp [reached, hcall]
    | cons u threads =>
      rw [reached, List.dropLast_cons_cons, List.forall_mem_cons, ← ih]
      cases hcall : ok t <;> simp

theorem reached_initial (threads : List Nat) : reached ok threads <+: threads := by
  induction threads with
  | nil => exact List.prefix_refl []
  | cons t threads ih =>
    rw [reached]
    split_ifs
    · exact (List.prefix_cons_inj t).mpr ih
    · exact (List.prefix_cons_inj t).mpr List.nil_prefix

theorem reached_all (threads : List Nat) :
    (∀ t ∈ reached ok threads, ok t = true) ↔ ∀ t ∈ threads, ok t = true := by
  induction threads with
  | nil => simp [reached]
  | cons t threads ih =>
    rw [reached, List.forall_mem_cons, ← ih]
    cases hcall : ok t <;> simp [hcall]

variable (active : ActiveThreads) (threads : Nat → GroupThread)

theorem callGroup_calls (hok : ∀ t ∈ active.inOrder, (call t (threads t)).1 = ok t) :
    (callGroup call active threads).2.calls =
      (reached ok active.inOrder).map fun t => (t, ok t) := by
  unfold callGroup
  split_ifs with hempty
  · rw [List.isEmpty_iff.mp hempty]
    rfl
  · exact (visit_all active.nodup hok).1

theorem callGroup_result (hok : ∀ t ∈ active.inOrder, (call t (threads t)).1 = ok t) :
    (callGroup call active threads).1 = true ↔ active.inOrder ≠ [] ∧
      ∀ c ∈ (callGroup call active threads).2.calls, c.2 = true := by
  rw [callGroup_calls active threads hok, List.forall_mem_map, reached_all, ← List.all_eq_true]
  unfold callGroup
  split_ifs with hempty
  · exact iff_of_false nofun fun h => h.1 (List.isEmpty_iff.mp hempty)
  · rw [(visit_all active.nodup hok).2]
    exact (and_iff_right (mt List.isEmpty_iff.mpr hempty)).symm

theorem callsEvery_iff (hok : ∀ t ∈ active.inOrder, (call t (threads t)).1 = ok t) :
    CallsEvery active (callGroup call active threads) ↔
      ∀ t ∈ active.inOrder.dropLast, ok t = true := by
  have hcalled : (callGroup call active threads).2.calls.map Prod.fst =
      reached ok active.inOrder := by
    rw [callGroup_calls active threads hok, List.map_map]
    exact List.map_id _
  rw [← reached_eq_iff]
  constructor
  · intro h
    have hlength := h.calls.length_eq
    rw [hcalled] at hlength
    exact (reached_initial _).eq_of_length hlength
  · refine fun h => ⟨?_, callGroup_result active threads hok⟩
    rw [hcalled, h]

/-! ## Exit flags -/

theorem collectionToBool_keeps {α σ : Type*} {func : α → σ → Bool × σ} {P : σ → Prop}
    (hfunc : ∀ elem s, P s → P (func elem s).2) (elems : List α) {s : σ} (hs : P s) :
    P (collectionToBool func elems s).2 := by
  induction elems generalizing s with
  | nil => exact hs
  | cons elem elems ih =>
    rw [collectionToBool_cons]
    split_ifs
    · exact ih (hfunc elem s hs)
    · exact hfunc elem s hs

def CalledExit (g : GroupCalls) : Prop := ∀ c ∈ g.calls, (g.threads c.1).exit = true

theorem stopGroup_exit (waitServiceExit : Int) (alive : Nat → Nat → Bool) :
    CalledExit (stopGroup waitServiceExit alive active threads).2 := by
  unfold stopGroup callGroup
  split_ifs
  · exact List.forall_mem_nil _
  · refine collectionToBool_keeps (P := CalledExit) (fun t g hg => ?_) active.inOrder
      (List.forall_mem_nil _)
    simp only [CalledExit, visit, List.forall_mem_append, List.forall_mem_singleton,
      Function.update_self]
    refine ⟨fun c hc => ?_, rfl⟩
    by_cases hct : c.1 = t
    · rw [hct, Function.update_self]
      rfl
    · rw [Function.update_of_ne hct]
      exact hg c hc

theorem awaitNotAlive_iff (alive : Nat → Bool) (pass limit : Nat) :
    GroupThread.awaitNotAlive alive pass limit = true ↔ ∃ n ≤ limit, alive (pass + n) = false := by
  induction limit generalizing pass with
  | zero =>
    cases halive : alive pass <;> simp [GroupThread.awaitNotAlive, halive]
  | succ limit ih =>
    rw [GroupThread.awaitNotAlive]
    cases halive : alive pass with
    | false => exact iff_of_true rfl ⟨0, Nat.zero_le _, halive⟩
    | true =>
      rw [Bool.not_true, if_neg Bool.false_ne_true, ih]
      constructor
      · rintro ⟨n, hn, hoff⟩
        exact ⟨n + 1, Nat.succ_le_succ hn, by rwa [← Nat.add_assoc, Nat.add_right_comm]⟩
      · rintro ⟨n, hn, hoff⟩
        cases n with
        | zero => cases halive.symm.trans hoff
        | succ n => exact ⟨n, Nat.le_of_succ_le_succ hn, by rwa [Nat.add_right_comm, Nat.add_assoc]⟩

/-- Starting and stopping reach every thread exactly if no call fails before the last: no
thread before the last has been started already, and each of these is seen not alive within
its passes. -/
theorem group_calls_every_iff (waitServiceExit : Int) (alive : Nat → Nat → Bool) :
    (CallsEvery active (startGroup active threads) ↔
      ∀ t ∈ active.inOrder.dropLast, (threads t).started = false) ∧
    (CallsEvery active (stopGroup waitServiceExit alive active threads) ∧
        (∀ t ∈ active.inOrder,
          ((stopGroup waitServiceExit alive active threads).2.threads t).exit = true) ↔
      ∀ t ∈ active.inOrder.dropLast,
        ∃ n ≤ GroupThread.exitLimit waitServiceExit, alive t n = false) := by
  constructor
  · have hstart : ∀ t ∈ active.inOrder, ((threads t).startThread).1 = !(threads t).started := by
      intro t _
      unfold GroupThread.startThread
      cases (threads t).started <;> rfl
    refine (callsEvery_iff active threads hstart).trans ?_
    simp only [Bool.not_eq_true']
  · have hstop : CallsEvery active (stopGroup waitServiceExit alive active threads) ↔
        ∀ t ∈ active.inOrder.dropLast,
          ((threads t).stopThread waitServiceExit (alive t)).1 = true :=
      callsEvery_iff active threads fun t _ => rfl
    constructor
    · rintro ⟨hcalls, -⟩ t ht
      have hok := hstop.mp hcalls t ht
      rw [GroupThread.stopThread, awaitNotAlive_iff] at hok
      simpa only [Nat.zero_add] using hok
    · intro h
      have hcalls := hstop.mpr fun t ht => by
        rw [GroupThread.stopThread, awaitNotAlive_iff]
        simpa only [Nat.zero_add] using h t ht
      refine ⟨hcalls, fun t ht => ?_⟩
      obtain ⟨c, hc, rfl⟩ := List.mem_map.mp (hcalls.calls.mem_iff.mpr ht)
      exact stopGroup_exit active threads waitServiceExit alive c hc

/-- Of two running threads the first does not end in time, and the second is not told to;
nor is a thread started behind one that runs already. -/
theorem group_not_every :
    let pair : ActiveThreads := ⟨[0, 1], by decide⟩
    let stopped := stopGroup 1000 (fun _ _ => true) pair fun _ => ⟨true, false⟩
    let started := startGroup pair fun t => ⟨t = 0, false⟩
    (¬ CallsEvery pair stopped ∧ (stopped.2.threads 1).exit = false) ∧
      ¬ CallsEvery pair started ∧ (started.2.threads 1).started = false := by
  refine ⟨⟨fun h => ?_, by decide⟩, fun h => ?_, by decide⟩
  · exact absurd h.calls.length_eq (by decide)
  · exact absurd h.calls.length_eq (by decide)

end ActiveThreads

end MultiplexServer

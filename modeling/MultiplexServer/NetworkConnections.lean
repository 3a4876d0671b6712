import Mathlib.Data.List.Nodup
import Mathlib.Data.List.Count

/-! `c_network_connections`: the table of the client connections, the descriptors of
the last `select`, and the locked connections that wait to be published. -/

namespace MultiplexServer

structure NetworkConnection where
  clientFd : Int
  locked : Bool
  deriving DecidableEq, Repr

structure NetworkConnections where
  networkConnections : List (Option NetworkConnection)
  networkSockets : List Int
  activeConnections : List Int
  deriving DecidableEq, Repr

namespace NetworkConnections

def new (maximumClients : Nat) : NetworkConnections :=
  ⟨List.replicate maximumClients none, [], []⟩

def init (t : NetworkConnections) (listenerFd : Int) : NetworkConnections :=
  { t with networkSockets := [listenerFd] }

def table (slots : List (Option NetworkConnection)) : List NetworkConnection := slots.filterMap id

def fds (slots : List (Option NetworkConnection)) : List Int :=
  (table slots).map NetworkConnection.clientFd

/-- `get_max_fd` also puts every connection into the descriptor set. -/
def getMaxFd (t : NetworkConnections) (fd : Int) : Int × NetworkConnections :=
  let fds := fds t.networkConnections
  (fds.foldl max fd, { t with networkSockets := t.networkSockets ++ fds.filter (0 < ·) })

def addConnection (newFd : Int) : List (Option NetworkConnection) →
    Option (List (Option NetworkConnection))
  | [] => none
  | none :: slots => some (some ⟨newFd, false⟩ :: slots)
  | some c :: slots => (addConnection newFd slots).map (some c :: ·)

/-- `FD_ISSET` holds and the connection is not locked yet. -/
def ready (sockets : List Int) (c : NetworkConnection) : Bool :=
  0 < c.clientFd && sockets.contains c.clientFd && !c.locked

def getActiveConnections (t : NetworkConnections) : NetworkConnections :=
  { t with
    networkConnections := t.networkConnections.map <| Option.map fun c =>
      if ready t.networkSockets c then { c with locked := true } else c
    activeConnections := t.activeConnections ++
      ((table t.networkConnections).filter (ready t.networkSockets)).map
        NetworkConnection.clientFd }

def clearPendingConnections (t : NetworkConnections) : NetworkConnections :=
  { t with activeConnections := [] }

def changeLocked (fd : Int) (change : NetworkConnection → Option NetworkConnection) :
    List (Option NetworkConnection) → Option (List (Option NetworkConnection))
  | [] => none
  | none :: slots => (changeLocked fd change slots).map (none :: ·)
  | some c :: slots =>
    if c.clientFd = fd ∧ c.locked then some (change c :: slots)
    else (changeLocked fd change slots).map (some c :: ·)

def removeConnection (fd : Int) := changeLocked fd fun _ => none
def unlockConnection (fd : Int) := changeLocked fd fun c => some { c with locked := false }

def lockedCount (fd : Int) (slots : List (Option NetworkConnection)) : Nat :=
  (table slots).countP fun c => c.clientFd = fd ∧ c.locked

@[simp] theorem table_nil : table [] = [] := rfl
@[simp] theorem table_none (slots : List (Option NetworkConnection)) :
    table (none :: slots) = table slots := rfl
@[simp] theorem table_some (c : NetworkConnection) (slots : List (Option NetworkConnection)) :
    table (some c :: slots) = c :: table slots := rfl

@[simp] theorem lockedCount_none (fd : Int) (slots : List (Option NetworkConnection)) :
    lockedCount fd (none :: slots) = lockedCount fd slots := rfl

theorem lockedCount_some (fd : Int) (c : NetworkConnection)
    (slots : List (Option NetworkConnection)) :
    lockedCount fd (some c :: slots) =
      lockedCount fd slots + if c.clientFd = fd ∧ c.locked then 1 else 0 := by
  simp [lockedCount, List.countP_cons]

theorem table_append (xs ys : List (Option NetworkConnection)) :
    table (xs ++ ys) = table xs ++ table ys := by
  simp [table]

theorem fds_append (xs ys : List (Option NetworkConnection)) :
    fds (xs ++ ys) = fds xs ++ fds ys := by
  simp [fds, table_append]

@[simp] theorem fds_none (slots : List (Option NetworkConnection)) :
    fds (none :: slots) = fds slots := rfl
@[simp] theorem fds_some (c : NetworkConnection) (slots : List (Option NetworkConnection)) :
    fds (some c :: slots) = c.clientFd :: fds slots := rfl

theorem addConnection_eq_some {newFd : Int} {slots slots' : List (Option NetworkConnection)}
    (h : addConnection newFd slots = some slots') :
    ∃ xs ys, slots = xs ++ none :: ys ∧ slots' = xs ++ some ⟨newFd, false⟩ :: ys := by
  induction slots generalizing slots' with
  | nil => cases h
  | cons slot slots ih =>
    cases slot with
    | none =>
      cases h
      exact ⟨[], slots, rfl, rfl⟩
    | some c =>
      obtain ⟨rest, hrest, rfl⟩ := Option.map_eq_some_iff.mp h
      obtain ⟨xs, ys, rfl, rfl⟩ := ih hrest
      exact ⟨some c :: xs, ys, rfl, rfl⟩

theorem changeLocked_eq_some {fd : Int} {change : NetworkConnection → Option NetworkConnection}
    {slots slots' : List (Option NetworkConnection)}
    (h : changeLocked fd change slots = some slots') :
    ∃ xs c ys, slots = xs ++ some c :: ys ∧ slots' = xs ++ change c :: ys ∧
      c.clientFd = fd ∧ c.locked = true := by
  induction slots generalizing slots' with
  | nil => cases h
  | cons slot slots ih =>
    cases slot with
    | none =>
      obtain ⟨rest, hrest, rfl⟩ := Option.map_eq_some_iff.mp h
      obtain ⟨xs, c, ys, rfl, rfl, hc⟩ := ih hrest
      exact ⟨none :: xs, c, ys, rfl, rfl, hc⟩
    | some d =>
      simp only [changeLocked] at h
      split_ifs at h with hd
      · cases h
        exact ⟨[], d, slots, rfl, rfl, hd⟩
      · obtain ⟨rest, hrest, rfl⟩ := Option.map_eq_some_iff.mp h
        obtain ⟨xs, c, ys, rfl, rfl, hc⟩ := ih hrest
        exact ⟨some d :: xs, c, ys, rfl, rfl, hc⟩

theorem changeLocked_isSome {fd : Int} {change : NetworkConnection → Option NetworkConnection}
    {slots : List (Option NetworkConnection)} (h : 0 < lockedCount fd slots) :
    ∃ slots', changeLocked fd change slots = some slots' := by
  induction slots with
  | nil => cases h
  | cons slot slots ih =>
    cases slot with
    | none =>
      obtain ⟨rest, hrest⟩ := ih h
      exact ⟨none :: rest, by rw [changeLocked, hrest]; rfl⟩
    | some d =>
      by_cases hd : d.clientFd = fd ∧ d.locked = true
      · exact ⟨change d :: slots, if_pos hd⟩
      · have htail : lockedCount fd (some d :: slots) = lockedCount fd slots := by
          simp [lockedCount, table, hd]
        obtain ⟨rest, hrest⟩ := ih (htail ▸ h)
        exact ⟨some d :: rest, by rw [changeLocked, if_neg hd, hrest]; rfl⟩

theorem addConnection_perm {newFd : Int} {slots slots' : List (Option NetworkConnection)}
    (h : addConnection newFd slots = some slots') :
    slots'.length = slots.length ∧ (fds slots').Perm (newFd :: fds slots) := by
  obtain ⟨xs, ys, rfl, rfl⟩ := addConnection_eq_some h
  constructor
  · simp
  · simp only [fds_append, fds_some, fds_none]
    exact List.perm_middle

theorem removeConnection_perm {fd : Int} {slots slots' : List (Option NetworkConnection)}
    (h : removeConnection fd slots = some slots') :
    slots'.length = slots.length ∧ (fds slots).Perm (fd :: fds slots') := by
  obtain ⟨xs, c, ys, rfl, rfl, rfl, -⟩ := changeLocked_eq_some h
  constructor
  · simp
  · simp only [fds_append, fds_some, fds_none]
    exact List.perm_middle

theorem unlockConnection_fds {fd : Int} {slots slots' : List (Option NetworkConnection)}
    (h : unlockConnection fd slots = some slots') :
    slots'.length = slots.length ∧ fds slots' = fds slots := by
  obtain ⟨xs, c, ys, rfl, rfl, -, -⟩ := changeLocked_eq_some h
  constructor
  · simp
  · simp only [fds_append, fds_some]

theorem lockedCount_append (fd : Int) (xs ys : List (Option NetworkConnection)) :
    lockedCount fd (xs ++ ys) = lockedCount fd xs + lockedCount fd ys := by
  simp [lockedCount, table_append]

theorem lockedCount_eq {slots : List (Option NetworkConnection)} (h : (fds slots).Nodup)
    {c : NetworkConnection} (hc : c ∈ table slots) :
    lockedCount c.clientFd slots = if c.locked then 1 else 0 := by
  induction slots with
  | nil => cases hc
  | cons slot slots ih =>
    cases slot with
    | none => exact ih h hc
    | some d =>
      simp only [fds, table_some, List.map_cons, List.nodup_cons] at h
      rw [lockedCount_some]
      rcases List.mem_cons.mp hc with rfl | hrest
      · have hzero : lockedCount c.clientFd slots = 0 := by
          simp only [lockedCount, List.countP_eq_zero, decide_eq_true_eq, not_and]
          exact fun e he heq => absurd (List.mem_map.mpr ⟨e, he, heq⟩) h.1
        simp [hzero]
      · have hne : d.clientFd ≠ c.clientFd := fun heq =>
          h.1 (List.mem_map.mpr ⟨c, hrest, heq.symm⟩)
        simp [ih h.2 hrest, hne]

theorem lockedCount_lock (sockets : List Int) (fd : Int)
    (slots : List (Option NetworkConnection)) :
    lockedCount fd (slots.map <| Option.map fun c =>
        if ready sockets c then { c with locked := true } else c) =
      lockedCount fd slots +
        (((table slots).filter (ready sockets)).map NetworkConnection.clientFd).count fd := by
  induction slots with
  | nil => rfl
  | cons slot slots ih =>
    cases slot with
    | none => exact ih
    | some c =>
      rw [List.map_cons, Option.map_some, lockedCount_some, lockedCount_some, ih, table_some]
      by_cases hready : ready sockets c = true
      · have hfree : c.locked = false := by
          simp only [ready, Bool.and_eq_true, Bool.not_eq_true'] at hready
          exact hready.2
        simp [hready, hfree, List.count_cons]
        omega
      · simp [hready]
        omega

theorem lockedCount_getActiveConnections (t : NetworkConnections) (fd : Int) :
    lockedCount fd t.getActiveConnections.networkConnections + t.activeConnections.count fd =
      lockedCount fd t.networkConnections + t.getActiveConnections.activeConnections.count fd := by
  simp only [getActiveConnections, lockedCount_lock, List.count_append]
  omega

theorem fds_getActiveConnections (t : NetworkConnections) :
    fds t.getActiveConnections.networkConnections = fds t.networkConnections := by
  simp only [getActiveConnections, fds]
  induction t.networkConnections with
  | nil => rfl
  | cons slot slots ih =>
    cases slot with
    | none => exact ih
    | some c =>
      rw [List.map_cons, Option.map_some, table_some, table_some, List.map_cons, List.map_cons, ih]
      by_cases hready : ready t.networkSockets c = true <;> simp [hready]

theorem find?_eq_none {fd : Int} {slots : List (Option NetworkConnection)} (h : fd ∉ fds slots) :
    (table slots).find? (·.clientFd = fd) = none := by
  rw [List.find?_eq_none]
  intro c hc heq
  exact h (List.mem_map.mpr ⟨c, hc, by simpa using heq⟩)

theorem find?_eq_some {slots : List (Option NetworkConnection)} (h : (fds slots).Nodup)
    {c : NetworkConnection} (hc : c ∈ table slots) :
    (table slots).find? (·.clientFd = c.clientFd) = some c := by
  unfold fds at h
  generalize table slots = connections at h hc
  induction connections with
  | nil => cases hc
  | cons d connections ih =>
    rw [List.map_cons, List.nodup_cons] at h
    rcases List.mem_cons.mp hc with rfl | hrest
    · simp
    · have hne : d.clientFd ≠ c.clientFd := fun heq =>
        h.1 (List.mem_map.mpr ⟨c, hrest, heq.symm⟩)
      rw [List.find?_cons_of_neg (by simpa using hne)]
      exact ih h.2 hrest

end NetworkConnections

end MultiplexServer

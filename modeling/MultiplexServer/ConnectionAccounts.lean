import MultiplexServer.Library.RangeCount
import MultiplexServer.NetworkConnections

/-! The account of the locked connections: each is paid for by one descriptor, which waits
to be published or is carried by one of the elements made so far. Every operation on
the table has its entry here, for whatever carries the descriptors. -/

namespace MultiplexServer
open NetworkConnections RangeCount

structure ConnectionAccounts (t : NetworkConnections) (isOpen : Int → Prop) (created : Nat)
    (carried : Nat → Option Int) : Prop where
  distinct : (fds t.networkConnections).Nodup
  opened : ∀ fd ∈ fds t.networkConnections, isOpen fd
  tokens : ∀ fd, t.activeConnections.count fd +
    (List.range created).countP (fun r => carried r = some fd) =
      lockedCount fd t.networkConnections

namespace ConnectionAccounts

variable {t : NetworkConnections} {isOpen isOpen' : Int → Prop} {created : Nat}
  {carried carried' : Nat → Option Int} {fd : Int} {r : Nat}

theorem fds_new (maximumClients : Nat) :
    fds (NetworkConnections.new maximumClients).networkConnections = [] := by
  induction maximumClients with
  | zero => rfl
  | succ n ih => exact ih

theorem mem_fds_of_locked {slots : List (Option NetworkConnection)}
    (h : 0 < lockedCount fd slots) : fd ∈ fds slots := by
  obtain ⟨c, hc, hfd⟩ := List.countP_pos_iff.mp h
  exact List.mem_map.mpr ⟨c, hc, (of_decide_eq_true hfd).1⟩

theorem new (maximumClients : Nat) (isOpen : Int → Prop) (carried : Nat → Option Int) :
    ConnectionAccounts (.new maximumClients) isOpen 0 carried where
  distinct := by simp [fds_new]
  opened := by simp [fds_new]
  tokens fd := by
    have hnone : lockedCount fd (NetworkConnections.new maximumClients).networkConnections = 0 := by
      by_contra hlocked
      have hmem := mem_fds_of_locked (Nat.pos_of_ne_zero hlocked)
      rw [fds_new] at hmem
      cases hmem
    rw [hnone]
    rfl

theorem congr (h : ConnectionAccounts t isOpen created carried)
    (hopen : ∀ fd ∈ fds t.networkConnections, isOpen fd → isOpen' fd)
    (hcarried : ∀ r < created, carried' r = carried r) :
    ConnectionAccounts t isOpen' created carried' where
  distinct := h.distinct
  opened fd hfd := hopen fd hfd (h.opened fd hfd)
  tokens fd := by
    rw [← h.tokens fd]
    congr 1
    apply List.countP_congr
    intro r hr
    rw [hcarried r (List.mem_range.mp hr)]

theorem select (h : ConnectionAccounts t isOpen created carried) (networkSockets : List Int) :
    ConnectionAccounts { t with networkSockets } isOpen created carried :=
  ⟨h.distinct, h.opened, h.tokens⟩

theorem locked_of_carried (h : ConnectionAccounts t isOpen created carried) (hr : r < created)
    (hcarried : carried r = some fd) : 0 < lockedCount fd t.networkConnections := by
  have hpos : 0 < (List.range created).countP (fun r => carried r = some fd) :=
    List.countP_pos_iff.mpr ⟨r, List.mem_range.mpr hr, by simp [hcarried]⟩
  have := h.tokens fd
  omega

theorem mem_fds_of_carried (h : ConnectionAccounts t isOpen created carried) (hr : r < created)
    (hcarried : carried r = some fd) : fd ∈ fds t.networkConnections :=
  mem_fds_of_locked (h.locked_of_carried hr hcarried)

theorem mem_fds_of_active (h : ConnectionAccounts t isOpen created carried)
    (hactive : fd ∈ t.activeConnections) : fd ∈ fds t.networkConnections := by
  apply mem_fds_of_locked
  have hpos := List.count_pos_iff.mpr hactive
  have := h.tokens fd
  omega

theorem paid_le_one (h : ConnectionAccounts t isOpen created carried) (fd : Int) :
    t.activeConnections.count fd +
      (List.range created).countP (fun r => carried r = some fd) ≤ 1 := by
  rw [h.tokens fd]
  calc lockedCount fd t.networkConnections
      ≤ (table t.networkConnections).countP fun c => c.clientFd == fd :=
        List.countP_mono_left fun c _ hc => by
          simp only [decide_eq_true_eq] at hc
          simpa using hc.1
    _ = (fds t.networkConnections).count fd := by
        rw [fds, List.count, List.countP_map]
        rfl
    _ ≤ 1 := List.nodup_iff_count_le_one.mp h.distinct fd

theorem active_nodup (h : ConnectionAccounts t isOpen created carried) :
    t.activeConnections.Nodup :=
  List.nodup_iff_count_le_one.mpr fun fd => (Nat.le_add_right _ _).trans (h.paid_le_one fd)

theorem not_carried_of_active (h : ConnectionAccounts t isOpen created carried)
    (hactive : fd ∈ t.activeConnections) (hr : r < created) : carried r ≠ some fd := by
  intro hcarried
  have hpos : 0 < (List.range created).countP (fun r => carried r = some fd) :=
    List.countP_pos_iff.mpr ⟨r, List.mem_range.mpr hr, by simp [hcarried]⟩
  have hwaiting := List.count_pos_iff.mpr hactive
  have := h.paid_le_one fd
  omega

theorem carried_unique (h : ConnectionAccounts t isOpen created carried) {r' : Nat}
    (hr : r < created) (hr' : r' < created) (hcarried : carried r = some fd)
    (hcarried' : carried r' = some fd) : r = r' := by
  have hone : (List.range created).countP (fun r => carried r = some fd) ≤ 1 :=
    (Nat.le_add_left _ _).trans (h.paid_le_one fd)
  exact countP_range_unique hone hr hr' (by simp [hcarried]) (by simp [hcarried'])

theorem of_unlocked (h : ConnectionAccounts t isOpen created carried) {c : NetworkConnection}
    (hc : c ∈ table t.networkConnections) (hfree : c.locked = false) :
    c.clientFd ∉ t.activeConnections ∧ ∀ r < created, carried r ≠ some c.clientFd := by
  have hzero : lockedCount c.clientFd t.networkConnections = 0 := by
    rw [lockedCount_eq h.distinct hc, hfree]
    rfl
  have htokens := h.tokens c.clientFd
  constructor
  · intro hactive
    have := List.count_pos_iff.mpr hactive
    omega
  · intro r hr hcarried
    have := h.locked_of_carried hr hcarried
    omega

theorem add (h : ConnectionAccounts t isOpen created carried) {newFd : Int}
    {slots : List (Option NetworkConnection)} (hfresh : ¬ isOpen newFd)
    (hslots : addConnection newFd t.networkConnections = some slots)
    (hkept : ∀ fd, isOpen fd → isOpen' fd) (hnew : isOpen' newFd) :
    ConnectionAccounts { t with networkConnections := slots } isOpen' created carried ∧
      ∀ fd ∈ fds slots, fd = newFd ∨ fd ∈ fds t.networkConnections := by
  obtain ⟨xs, ys, hold, rfl⟩ := addConnection_eq_some hslots
  have hdistinct := h.distinct
  have hopened := h.opened
  have htokens := h.tokens
  rw [hold] at hdistinct hopened htokens ⊢
  simp only [fds_append, fds_none] at hdistinct hopened
  have hmem : ∀ fd ∈ fds (xs ++ some ⟨newFd, false⟩ :: ys),
      fd = newFd ∨ fd ∈ fds xs ++ fds ys := by
    intro fd hfd
    simp only [fds_append, fds_some, List.mem_append, List.mem_cons] at hfd ⊢
    tauto
  refine ⟨⟨?_, fun fd hfd => ?_, fun fd => ?_⟩, ?_⟩
  · simp only [fds_append, fds_some]
    have hnotMem : newFd ∉ fds xs ++ fds ys := fun hmem => hfresh (hopened newFd hmem)
    exact (List.nodup_middle).mpr (List.nodup_cons.mpr ⟨hnotMem, hdistinct⟩)
  · rcases hmem fd hfd with rfl | hrest
    · exact hnew
    · exact hkept fd (hopened fd hrest)
  · have := htokens fd
    simp only [lockedCount_append, lockedCount_none, lockedCount_some] at this ⊢
    simpa using this
  · simpa only [fds_append, fds_none] using hmem

theorem getActive (h : ConnectionAccounts t isOpen created carried) :
    ConnectionAccounts t.getActiveConnections isOpen created carried where
  distinct := by rw [fds_getActiveConnections]; exact h.distinct
  opened := by rw [fds_getActiveConnections]; exact h.opened
  tokens fd := by
    have hlocked := lockedCount_getActiveConnections t fd
    have := h.tokens fd
    omega

theorem publish (h : ConnectionAccounts t isOpen created carried)
    (hold : ∀ r < created, carried' r = carried r)
    (hnew : ∀ i fd, t.activeConnections[i]? = some fd → carried' (created + i) = some fd) :
    ConnectionAccounts t.clearPendingConnections isOpen (created + t.activeConnections.length)
      carried' where
  distinct := h.distinct
  opened := h.opened
  tokens fd := by
    have hcount : (List.range (created + t.activeConnections.length)).countP
        (fun r => carried' r = some fd) =
        (List.range created).countP (fun r => carried r = some fd) +
          t.activeConnections.count fd := by
      apply countP_range_append
      · intro r hr
        rw [hold r hr]
      · intro i y hy
        simp [hnew i y hy]
    have := h.tokens fd
    simp only [clearPendingConnections, List.count_nil]
    omega

theorem settle (h : ConnectionAccounts t isOpen created carried) (hr : r < created)
    (hcarried : carried r = some fd) (hsettled : carried' r = none)
    (hothers : ∀ x, x ≠ r → carried' x = carried x)
    (change : NetworkConnection → Option NetworkConnection) :
    ∃ xs c ys, t.networkConnections = xs ++ some c :: ys ∧ c.clientFd = fd ∧
      changeLocked fd change t.networkConnections = some (xs ++ change c :: ys) ∧
      fd ∉ fds xs ++ fds ys ∧ (fds xs ++ fds ys).Nodup ∧
      ∀ x, t.activeConnections.count x +
        (List.range created).countP (fun r => carried' r = some x) =
          lockedCount x xs + lockedCount x ys := by
  obtain ⟨slots, hslots⟩ : ∃ slots, changeLocked fd change t.networkConnections = some slots :=
    changeLocked_isSome (h.locked_of_carried hr hcarried)
  obtain ⟨xs, c, ys, hold, rfl, hfd, hlocked⟩ := changeLocked_eq_some hslots
  have hdistinct := h.distinct
  have htokens := h.tokens
  rw [hold] at hdistinct htokens
  simp only [fds_append, fds_some, hfd] at hdistinct
  have hrest := List.nodup_cons.mp (List.nodup_middle.mp hdistinct)
  refine ⟨xs, c, ys, hold, hfd, hslots, hrest.1, hrest.2, fun x => ?_⟩
  have hmove := countP_range_change hr (p := fun r => carried' r = some x)
    (q := fun r => carried r = some x) fun y hy => by simp only [hothers y hy]
  have hcount := htokens x
  simp only [lockedCount_append, lockedCount_some, hlocked, hfd] at hcount
  simp only [hcarried, hsettled] at hmove
  simp at hcount hmove
  omega

theorem remove (h : ConnectionAccounts t isOpen created carried) (hr : r < created)
    (hcarried : carried r = some fd) (hsettled : carried' r = none)
    (hothers : ∀ x, x ≠ r → carried' x = carried x) :
    ∃ slots, removeConnection fd t.networkConnections = some slots ∧ fd ∉ fds slots ∧
      (∀ x ∈ fds slots, x ∈ fds t.networkConnections) ∧
      ConnectionAccounts { t with networkConnections := slots } isOpen created carried' := by
  obtain ⟨xs, c, ys, hold, hfd, hslots, hgone, hdistinct, htokens⟩ :=
    h.settle hr hcarried hsettled hothers fun _ => none
  have hsub : ∀ x ∈ fds (xs ++ none :: ys), x ∈ fds t.networkConnections := by
    intro x hx
    rw [hold]
    simp only [fds_append, fds_none, fds_some, List.mem_append, List.mem_cons] at hx ⊢
    tauto
  refine ⟨_, hslots, by simpa only [fds_append, fds_none] using hgone, hsub, ?_, ?_, ?_⟩
  · simpa only [fds_append, fds_none] using hdistinct
  · exact fun x hx => h.opened x (hsub x hx)
  · intro x
    rw [htokens x, lockedCount_append, lockedCount_none]

theorem unlock (h : ConnectionAccounts t isOpen created carried) (hr : r < created)
    (hcarried : carried r = some fd) (hsettled : carried' r = none)
    (hothers : ∀ x, x ≠ r → carried' x = carried x) :
    ∃ slots, unlockConnection fd t.networkConnections = some slots ∧
      ⟨fd, false⟩ ∈ table slots ∧ fds slots = fds t.networkConnections ∧
      ConnectionAccounts { t with networkConnections := slots } isOpen created carried' := by
  obtain ⟨xs, c, ys, hold, hfd, hslots, hgone, hdistinct, htokens⟩ :=
    h.settle hr hcarried hsettled hothers fun c => some { c with locked := false }
  have hsame : fds (xs ++ some { c with locked := false } :: ys) = fds t.networkConnections := by
    rw [hold]
    simp only [fds_append, fds_some]
  refine ⟨_, hslots, by simp [table_append, hfd], hsame, ?_, ?_, ?_⟩
  · change (fds (xs ++ some { c with locked := false } :: ys)).Nodup
    rw [hsame]
    exact h.distinct
  · intro x hx
    exact h.opened x (hsame ▸ hx)
  · intro x
    rw [htokens x, lockedCount_append, lockedCount_some]
    simp

end ConnectionAccounts

end MultiplexServer

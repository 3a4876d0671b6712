import MultiplexServer.ServerLife

/-! Where the elements are: an element that some stage still has to deal with stands in
the pipe of that stage, and in no pipe of a later one. -/

namespace MultiplexServer
open Strings ServerPipeline ServerPipelineElement

/-- Every element lives its life and stands where its next stage looks for it. -/
structure Sited (cfg : ServerConfig) (p : ServerPipeline) (log : Ref → List Visit) : Prop where
  life : ∀ r < p.created, Life cfg (p.elements r).clientFd (log r) (p.elements r)
  unlogged : ∀ r, p.created ≤ r → log r = []
  known : ∀ stage, ∀ r ∈ (p.pipe stage).elements, r < p.created
  behind : ∀ stage, ∀ r ∈ (p.pipe stage).elements, stage.rank ≤ (p.elements r).rank
  here : ∀ r < p.created, ∀ stage, (p.elements r).place = some stage →
    r ∈ (p.pipe stage).elements

namespace Sited

variable {cfg : ServerConfig} {p : ServerPipeline} {log : Ref → List Visit}

theorem new (cfg : ServerConfig) : Sited cfg .new fun _ => [] where
  life r hr := absurd hr (Nat.not_lt_zero r)
  unlogged _ _ := rfl
  known _ _ hr := absurd hr List.not_mem_nil
  behind _ _ hr := absurd hr List.not_mem_nil
  here r hr := absurd hr (Nat.not_lt_zero r)

theorem eligible_iff (h : Sited cfg p log) {r : Ref} (hr : r < p.created) (stage : Stage) :
    p.Eligible stage r ↔ (p.elements r).place = some stage := by
  rw [Eligible, (h.life r hr).completedPredicate_eq_false_iff]
  constructor
  · rintro ⟨hmem, hrank⟩
    exact place_of_rank (le_antisymm hrank (h.behind stage r hmem))
  · intro hplace
    exact ⟨h.here r hr stage hplace, (rank_of_place hplace).le⟩

theorem created_of_eligible (h : Sited cfg p log) {r : Ref} {stage : Stage}
    (he : p.Eligible stage r) : r < p.created :=
  h.known stage r he.1

theorem getNext (h : Sited cfg p log) {q : ServerPipeline} {stage : Stage} {objectId : Nat}
    {acquired : Bool} {r : Ref} (hnext : p.getNext stage objectId acquired = some (r, q)) :
    r < p.created ∧ (p.elements r).place = some stage ∧ q = p.modify r (.lockedBy objectId) := by
  obtain ⟨heligible, -, hq⟩ := getNext_eq_some hnext
  have hr := h.created_of_eligible heligible
  exact ⟨hr, (h.eligible_iff hr stage).mp heligible, hq⟩

theorem visited_life (h : Sited cfg p log) {r : Ref} {visit : Visit}
    {f : ServerPipelineElement → ServerPipelineElement}
    (hlife : Life cfg (p.elements r).clientFd (log r ++ [visit]) (f (p.elements r))) (x : Ref)
    (hx : x < p.created) :
    Life cfg ((p.modify r f).elements x).clientFd
      (Function.update log r (log r ++ [visit]) x) ((p.modify r f).elements x) := by
  by_cases hxr : x = r
  · subst hxr
    simpa [hlife.clientFd] using hlife
  · simpa [hxr] using h.life x hx

theorem visited_unlogged (h : Sited cfg p log) {r : Ref} (hr : r < p.created)
    (visits : List Visit) (x : Ref) (hx : p.created ≤ x) :
    Function.update log r visits x = [] := by
  rw [Function.update_of_ne (hr.trans_le hx).ne']
  exact h.unlogged x hx

theorem advance (h : Sited cfg p log) {r : Ref} (hr : r < p.created) {stage target : Stage}
    (hplace : (p.elements r).place = some stage)
    {f : ServerPipelineElement → ServerPipelineElement} {visit : Visit}
    (hlife : Life cfg (p.elements r).clientFd (log r ++ [visit]) (f (p.elements r)))
    (htarget : (f (p.elements r)).place = some target) (hlater : stage.rank ≤ target.rank) :
    Sited cfg ((p.push target r).modify r f) (Function.update log r (log r ++ [visit])) where
  life := h.visited_life hlife
  unlogged := h.visited_unlogged hr _
  known t x hx := by
    rcases (mem_push _ _).mp hx with ⟨-, rfl⟩ | hold
    · exact hr
    · exact h.known t x hold
  behind t x hx := by
    have hmem := (mem_push _ _).mp hx
    by_cases hxr : x = r
    · subst hxr
      simp only [modify_elements, push_elements, Function.update_self, rank_of_place htarget]
      rcases hmem with ⟨rfl, -⟩ | hold
      · exact le_refl _
      · have hbehind := h.behind t x hold
        rw [rank_of_place hplace] at hbehind
        exact hbehind.trans hlater
    · simp only [modify_elements, push_elements, Function.update_of_ne hxr]
      exact h.behind t x (hmem.resolve_left fun hboth => hxr hboth.2)
  here x hx t ht := by
    by_cases hxr : x = r
    · subst hxr
      simp only [modify_elements, push_elements, Function.update_self, htarget,
        Option.some.injEq] at ht
      exact (mem_push _ _).mpr (.inl ⟨ht.symm, rfl⟩)
    · simp only [modify_elements, push_elements, Function.update_of_ne hxr] at ht
      exact (mem_push _ _).mpr (.inr (h.here x hx t ht))

theorem finish (h : Sited cfg p log) {r : Ref} (hr : r < p.created)
    {f : ServerPipelineElement → ServerPipelineElement} {visit : Visit}
    (hlife : Life cfg (p.elements r).clientFd (log r ++ [visit]) (f (p.elements r)))
    (hend : (f (p.elements r)).place = none) :
    Sited cfg (p.modify r f) (Function.update log r (log r ++ [visit])) where
  life := h.visited_life hlife
  unlogged := h.visited_unlogged hr _
  known := h.known
  behind t x hx := by
    by_cases hxr : x = r
    · subst hxr
      simp only [modify_elements, Function.update_self, ServerPipelineElement.rank, hend]
      cases t <;> decide
    · simpa [hxr] using h.behind t x hx
  here x hx t ht := by
    by_cases hxr : x = r
    · subst hxr
      simp [hend] at ht
    · simp only [modify_elements, Function.update_of_ne hxr] at ht
      exact h.here x hx t ht

theorem maintain (h : Sited cfg p log) (acquired : Stage → Bool) :
    Sited cfg (p.doPipelineMaintenance acquired) log where
  life := h.life
  unlogged := h.unlogged
  known t x hx := h.known t x (Pipe.mem_doPipeMaintenance.1 hx)
  behind t x hx := h.behind t x (Pipe.mem_doPipeMaintenance.1 hx)
  here x hx t ht := by
    have heligible := (h.eligible_iff hx t).mpr ht
    exact ((eligible_doPipelineMaintenance p acquired t x).mpr heligible).1

theorem pending_of_new {created length r : Nat} {pending : List Int}
    (hlength : length = pending.length) (hnew : created ≤ r) (hr : r < created + length) :
    ∃ i fd, r = created + i ∧ pending[i]? = some fd := by
  subst hlength
  refine ⟨r - created, pending[r - created], by omega, ?_⟩
  rw [List.getElem?_eq_getElem]

theorem publish (h : Sited cfg p log) {acquired : Bool} {pending : List Int}
    (hpublished : (p.publishConnectN acquired pending).1 = true) :
    Sited cfg (p.publishConnectN acquired pending).2 log where
  life x hx := by
    rw [publishConnectN_created hpublished] at hx
    by_cases hold : x < p.created
    · rw [publishConnectN_old hpublished hold]
      exact h.life x hold
    · obtain ⟨i, fd, rfl, hfd⟩ := pending_of_new rfl (not_lt.mp hold) hx
      rw [publishConnectN_new hpublished hfd, h.unlogged _ (Nat.le_add_right _ _)]
      exact .created
  unlogged x hx := by
    rw [publishConnectN_created hpublished] at hx
    exact h.unlogged x (by omega)
  known t x hx := by
    rw [publishConnectN_created hpublished]
    rcases (mem_publishConnectN hpublished t x).mp hx with hold | ⟨-, -, hnew⟩
    · exact (h.known t x hold).trans_le (Nat.le_add_right _ _)
    · exact hnew
  behind t x hx := by
    rcases (mem_publishConnectN hpublished t x).mp hx with hold | ⟨rfl, -, -⟩
    · rw [publishConnectN_old hpublished (h.known t x hold)]
      exact h.behind t x hold
    · exact Nat.zero_le _
  here x hx t ht := by
    rw [publishConnectN_created hpublished] at hx
    rw [mem_publishConnectN hpublished]
    by_cases hold : x < p.created
    · rw [publishConnectN_old hpublished hold] at ht
      exact .inl (h.here x hold t ht)
    · obtain ⟨i, fd, rfl, hfd⟩ := pending_of_new rfl (not_lt.mp hold) hx
      rw [publishConnectN_new hpublished hfd, place_new, Option.some.injEq] at ht
      exact .inr ⟨ht.symm, Nat.le_add_right _ _, hx⟩

end Sited

end MultiplexServer

/-
Restarting from a snapshot. `initialLoadFromStore` registers every persisted job, canceling the
ones that were running, then restores the wait list of each pipeline and drains it. Loaded with
the snapshot of a reachable state, the drain of a pipeline without a slot stops at once; when the
graph of a job it pops cannot be built, it re-enters itself and the load never returns
(`Prunner.Runner.Drain`). When the graphs of the waiting jobs of every pipeline with a slot are
built, the load returns the same jobs, the running ones canceled, each wait list with a prefix
started and the rest waiting in order, and the admission bounds. `Prunner.Store.Restart` shows
that on the definitions Go can have this is always so.
-/
import Prunner.Store.Persist
import Prunner.Runner.Reachable

namespace Prunner

variable {env : Env} {now : Time}

/-! ## A restored job -/

section RestoreJob

variable (pJob : PersistedJob)

end RestoreJob

/-! ## Registering the saved jobs -/

section Saved

variable {s : PipelineRunner}

end Saved

/-! ## Restoring a wait list -/

theorem restoreWaitList_spec (p : String) : ∀ (ids : List UUID) (r : PipelineRunner),
    (restoreWaitList p ids r).heap = r.heap ∧ (restoreWaitList p ids r).next = r.next ∧
      (restoreWaitList p ids r).jobsByID = r.jobsByID ∧
      (restoreWaitList p ids r).jobsByPipeline = r.jobsByPipeline ∧
      ∀ q, (restoreWaitList p ids r).waitListByPipeline.slice q =
        if q = p then r.waitListByPipeline.slice p ++ ids.filterMap (r.jobsByID.lookup ·)
        else r.waitListByPipeline.slice q
  | [], r => ⟨rfl, rfl, rfl, rfl, fun q => by
      simp only [restoreWaitList, List.filterMap_nil, List.append_nil]; split <;> simp [*]⟩
  | id :: ids, r => by
    unfold restoreWaitList
    cases hl : r.jobsByID.lookup id with
    | none =>
      obtain ⟨h1, h2, h3, h4, h5⟩ := restoreWaitList_spec p ids r
      exact ⟨h1, h2, h3, h4, fun q => by rw [h5 q, List.filterMap_cons_none (f := fun x => r.jobsByID.lookup x) hl]⟩
    | some ptr =>
      obtain ⟨h1, h2, h3, h4, h5⟩ := restoreWaitList_spec p ids
        (r.setWaitList p (r.waitListByPipeline.slice p ++ [ptr]))
      refine ⟨h1, h2, h3, h4, fun q => ?_⟩
      rw [h5 q, List.filterMap_cons_some (f := fun x => r.jobsByID.lookup x) hl]
      split
      · subst q; simp
      · simp [GoMap.slice_insert_ne _ _ ‹_›]

/-! ## The drain of a restored wait list -/

/-- Changing one member of a list without repeats adds at most one to a count. -/
theorem countP_le_succ {l : List JobPtr} {a : JobPtr} {P P' : JobPtr → Bool} (hnd : l.Nodup)
    (h : ∀ x ∈ l, x ≠ a → P' x = P x) : l.countP P' ≤ l.countP P + 1 := by
  induction l with
  | nil => simp
  | cons x xs ih =>
    rw [List.nodup_cons] at hnd
    simp only [List.countP_cons]
    by_cases hx : x = a
    · subst hx
      have : xs.countP P' = xs.countP P := List.countP_congr fun y hy => by
        rw [h y (List.mem_cons_of_mem _ hy) (ne_of_mem_of_not_mem hy hnd.1)]
      split_ifs <;> omega
    · have := ih hnd.2 fun y hy hya => h y (List.mem_cons_of_mem _ hy) hya
      rw [h x (List.mem_cons_self _ _) hx]
      split_ifs <;> omega

/-- A state with the same cells, ids and pipelines keeps the indexes. -/
theorem Indexed.of_frame {r r' : PipelineRunner} (hI : Indexed r) (hn : r'.next = r.next)
    (hid : r'.jobsByID = r.jobsByID) (hp : r'.jobsByPipeline = r.jobsByPipeline)
    (hh : ∀ x, (r'.heap x).id = (r.heap x).id ∧ (r'.heap x).pipeline = (r.heap x).pipeline) :
    Indexed r' where
  byID id ptr := by rw [hid, hn, (hh ptr).1]; exact hI.byID id ptr
  byPipeline q := by
    rw [hp, hn, hI.byPipeline]
    exact List.filter_congr fun x _ => by rw [(hh x).2]

theorem runningJobsCount_congr {r r' : PipelineRunner} (hp : r'.jobsByPipeline = r.jobsByPipeline)
    (hh : r'.heap = r.heap) (q : String) : runningJobsCount r' q = runningJobsCount r q := by
  unfold runningJobsCount; rw [hp, hh]

/-- A drain that returns leaves the counts of the other pipelines, adds to the count of its own
only while a slot is free, and stops with a job waiting only when no slot is free. -/
theorem Drains.counts {p : String} {r r' : PipelineRunner} (h : Drains env now p r r')
    (hI : Indexed r) (hp : ∀ j ∈ r.waitListByPipeline.slice p, (r.heap j).pipeline = p) :
    (∀ q, q ≠ p → runningJobsCount r' q = runningJobsCount r q) ∧
      ((runningJobsCount r' p : Int) ≤ max (runningJobsCount r p : Int) (env.pipelineDef p).concurrency) ∧
      (r'.waitListByPipeline.slice p ≠ [] → (env.pipelineDef p).concurrency ≤ runningJobsCount r' p) := by
  induction h with
  | @stop r hs =>
    refine ⟨fun q _ => rfl, le_max_left _ _, fun hne => ?_⟩
    simp only [PipelineRunner.setWaitList_waitListByPipeline, GoMap.slice_insert_self] at hne
    have := mt resolveScheduleAction_eq_start.2 (hs.resolve_left hne)
    simpa using this
  | @pop r r' j js hw hfree _ _ ih =>
    have hj : (r.heap j).pipeline = p := hp j (by simp [hw])
    have hI' : Indexed ((startJobOk now j r).setWaitList p js) :=
      hI.of_frame rfl rfl rfl fun x => by
        by_cases hx : x = j
        · subst x; simp
        · simp [startJobOk_heap_ne hx]
    have hp' : ∀ k ∈ ((startJobOk now j r).setWaitList p js).waitListByPipeline.slice p,
        (((startJobOk now j r).setWaitList p js).heap k).pipeline = p := fun k hk => by
      simp only [PipelineRunner.setWaitList_waitListByPipeline, GoMap.slice_insert_self] at hk
      by_cases hx : k = j
      · subst k; simpa using hj
      · simpa [startJobOk_heap_ne hx] using hp k (by simp [hw, hk])
    obtain ⟨c1, c2, c3⟩ := ih hI' hp'
    have hle : runningJobsCount (startJobOk now j r) p ≤ runningJobsCount r p + 1 := by
      unfold runningJobsCount
      exact countP_le_succ (hI.nodup_jobsByPipeline p) fun x _ hx => by rw [startJobOk_heap_ne hx]
    have hlt := resolveScheduleAction_eq_start.1 hfree
    refine ⟨fun q hq => ?_, ?_, c3⟩
    · rw [c1 q hq, runningJobsCount_setWaitList]
      unfold startJobOk
      rw [runningJobsCount_requestPersist, runningJobsCount_spawn]
      exact hI.runningJobsCount_modifyJob_of_ne (hj.trans_ne hq.symm)
    · rw [runningJobsCount_setWaitList] at c2
      have : (runningJobsCount (startJobOk now j r) p : Int) ≤ (env.pipelineDef p).concurrency := by
        omega
      omega

/-! ## The second loop -/

/-- The state of the second loop of `initialLoadFromStore`, started from `r1`, while the wait
lists of `pending` are still to be restored: each other pipeline `q` waits for `σ q` but its
first `k q` jobs, which have started, every other job is as in `r1`, and the admission bounds
hold. -/
structure Draining (env : Env) (now : Time) (r1 : PipelineRunner) (σ : String → List JobPtr)
    (pending : List String) (k : String → Nat) (r : PipelineRunner) : Prop where
  indexed : Indexed r
  next : r.next = r1.next
  jobsByID : r.jobsByID = r1.jobsByID
  jobsByPipeline : r.jobsByPipeline = r1.jobsByPipeline
  waitList : ∀ q, r.waitListByPipeline.slice q = if q ∈ pending then [] else (σ q).drop (k q)
  pendingK : ∀ q ∈ pending, k q = 0
  started : ∀ q, ∀ x ∈ (σ q).take (k q), r.heap x = { r1.heap x with start := some now }
  unchanged : ∀ x, (∀ q, x ∉ (σ q).take (k q)) → r.heap x = r1.heap x
  pendingCount : ∀ q ∈ pending, runningJobsCount r q = 0
  bound : ∀ q, (runningJobsCount r q : Int) ≤ max (env.pipelineDef q).concurrency 0
  full : ∀ q, r.waitListByPipeline.slice q ≠ [] →
    (env.pipelineDef q).concurrency ≤ runningJobsCount r q

section Draining

variable {r1 : PipelineRunner} {σ : String → List JobPtr}

/-- What the loop needs of the wait lists it restores: no job twice, each job of its pipeline,
with its graph built if the pipeline has a slot at all. -/
def WaitListsBuild (env : Env) (r1 : PipelineRunner) (σ : String → List JobPtr) : Prop :=
  ∀ q, (σ q).Nodup ∧ ∀ x ∈ σ q, (r1.heap x).pipeline = q ∧
    (0 < (env.pipelineDef q).concurrency → graphBuilds env (r1.heap x) = true)

/-- Restoring and draining the wait list of the next pending pipeline returns, and keeps the
invariant. -/
theorem Draining.step (hσ : WaitListsBuild env r1 σ) {p : String} {pending : List String}
    {k : String → Nat} {r : PipelineRunner} (h : Draining env now r1 σ (p :: pending) k r)
    (hp : p ∉ pending) {ids : List UUID} (hids : ids.filterMap (r1.jobsByID.lookup ·) = σ p)
    (n : Nat) : ∃ r' k', startJobsOnWaitList env now (n + 1) p (restoreWaitList p ids r) = some r' ∧
      Draining env now r1 σ pending k' r' := by
  obtain ⟨hh, hn, hid, hjp, hw⟩ := restoreWaitList_spec p ids r
  have hW2 : (restoreWaitList p ids r).waitListByPipeline.slice p = σ p := by
    rw [hw p, if_pos rfl, h.waitList p, if_pos (List.mem_cons_self _ _), h.jobsByID, hids,
      List.nil_append]
  have other : ∀ q, q ≠ p → ∀ x ∈ σ q, x ∉ σ p := fun q hq x hx hx' =>
    hq (((hσ q).2 x hx).1.symm.trans ((hσ p).2 x hx').1)
  have hk0 : ∀ x, x ∉ (σ p).take (k p) := by
    rw [h.pendingK p (List.mem_cons_self _ _), List.take_zero]; exact List.not_mem_nil
  have hpend : ∀ x ∈ σ p, r.heap x = r1.heap x := fun x hx => h.unchanged x fun q hq => by
    by_cases hqp : q = p
    · exact hk0 x (hqp ▸ hq)
    · exact other q hqp x (List.mem_of_mem_take hq) hx
  have hI2 : Indexed (restoreWaitList p ids r) := h.indexed.of_frame hn hid hjp fun x => by rw [hh]; simp
  have hc2 : ∀ q, runningJobsCount (restoreWaitList p ids r) q = runningJobsCount r q :=
    runningJobsCount_congr hjp hh
  have hq0 : runningJobsCount r p = 0 := h.pendingCount p (List.mem_cons_self _ _)
  obtain ⟨r', hd⟩ := @drains_exists_of_builds env now p _ (hW2 ▸ (hσ p).1) fun hC x hx => by
    rw [hW2] at hx; rw [hh, hpend x hx]; exact ((hσ p).2 x hx).2 hC
  obtain ⟨c1, c2, c3⟩ := hd.counts hI2 fun x hx => by
    rw [hW2] at hx; rw [hh, hpend x hx]; exact ((hσ p).2 x hx).1
  obtain ⟨kp, f1, f2, f3, f4, f5, f6⟩ := hd.frame
  rw [hW2] at f1 f6
  refine ⟨r', Function.update k p kp, startJobsOnWaitList_of_drains hd n, ?_⟩
  have heq : ∀ x, x ∉ (σ p).take kp → r'.heap x = r.heap x := fun x hx => by
    rw [f6 x, if_neg hx, hh]
  exact
    { indexed := hI2.of_frame f3 f4 f5 fun x => by rw [f6 x]; split <;> exact ⟨rfl, rfl⟩
      next := f3.trans (hn.trans h.next)
      jobsByID := f4.trans (hid.trans h.jobsByID)
      jobsByPipeline := f5.trans (hjp.trans h.jobsByPipeline)
      waitList := fun q => by
        by_cases hqp : q = p
        · subst q; rw [f1, if_neg hp, Function.update_same]
        · rw [f2 q hqp, hw q, if_neg hqp, h.waitList q, Function.update_noteq hqp]
          simp [hqp]
      pendingK := fun q hq => by
        rw [Function.update_noteq (fun (he : q = p) => hp (he ▸ hq))]
        exact h.pendingK q (List.mem_cons_of_mem _ hq)
      started := fun q x hx => by
        by_cases hqp : q = p
        · subst q
          rw [Function.update_same] at hx
          rw [f6 x, if_pos hx, hh, hpend x (List.mem_of_mem_take hx)]
        · rw [Function.update_noteq hqp] at hx
          rw [heq x fun hx' => other q hqp x (List.mem_of_mem_take hx) (List.mem_of_mem_take hx')]
          exact h.started q x hx
      unchanged := fun x hx => by
        rw [heq x (by simpa using hx p)]
        refine h.unchanged x fun q hq => ?_
        by_cases hqp : q = p
        · exact hk0 x (hqp ▸ hq)
        · exact hx q (by rwa [Function.update_noteq hqp])
      pendingCount := fun q hq => by
        rw [c1 q (fun (he : q = p) => hp (he ▸ hq)), hc2]
        exact h.pendingCount q (List.mem_cons_of_mem _ hq)
      bound := fun q => by
        by_cases hqp : q = p
        · subst q; rw [hc2, hq0] at c2; simpa [max_comm] using c2
        · rw [c1 q hqp, hc2]; exact h.bound q
      full := fun q hne => by
        by_cases hqp : q = p
        · subst q; exact c3 hne
        · rw [c1 q hqp, hc2]; rw [f2 q hqp, hw q, if_neg hqp] at hne; exact h.full q hne }

end Draining

/-! ## The snapshot of a reachable state -/

section Reachable

variable {s : PipelineRunner}

end Reachable

end Prunner

/-
Every operation of the runner keeps the invariant, so every state a run from the empty runner
reaches has it: running jobs within the concurrency, no job waiting while its pipeline has a free
slot, the queue limit and the replace strategy, the two indexes of jobs, and the wait lists.
-/
import Prunner.Runner.Invariant

namespace Prunner

variable {env : Env} {now : Time}

/-! ## The drain -/

/-- Popping the head of the wait list of `p` and starting it, while the pipeline has a free
slot. -/
theorem Core.pop {p : String} {r : PipelineRunner} {j : JobPtr} {js : List JobPtr} (hc : Core env r)
    (hw : r.waitListByPipeline.slice p = j :: js) (hfree : resolveScheduleAction env r p = .start) :
    Core env ((Prunner.startJobOk now j r).setWaitList p js) := by
  have hjW : j ∈ r.waitListByPipeline.slice p := by rw [hw]; exact List.mem_cons_self _ _
  obtain ⟨hjn, hjp, hjw⟩ := hc.waiting p j hjW
  have hsorted : ∀ k ∈ js, j < k := fun k hk => List.rel_of_pairwise_cons (hw ▸ hc.sorted p) hk
  rw [← startJobOk_setWaitList]
  refine (hc.setWaitList_sublist (by rw [hw]; exact List.sublist_cons_self _ _)).startJobOk hjn hjw
    (fun q hq => ?_) ?_ (fun s hs hsp => hc.spawnedFirst p s hs j hjW (hsp.trans hjp)) fun k hk => ?_
  · rw [slice_setWaitList] at hq
    split at hq
    · exact lt_irrefl j (hsorted j hq)
    · exact ‹¬q = p› ((hc.waiting q j hq).2.1.symm.trans hjp)
  · simpa [hjp, resolveScheduleAction_eq_start] using hfree
  · simp only [PipelineRunner.setWaitList_heap, hjp, slice_setWaitList, if_true] at hk
    exact hsorted k hk

/-- A drain of `p` from a state that keeps the invariant, but perhaps for `Full p`, ends in one
that keeps all of it. -/
theorem Drains.wf {p : String} {r r' : PipelineRunner} (h : Drains env now p r r')
    (hc : Core env r) (hf : ∀ q, q ≠ p → Full env r q) : WF env r' := by
  induction h with
  | stop hs =>
    rename_i r
    refine WF.of_sameView ⟨hc, fun q => ?_⟩ (sameView_setWaitList_self r p)
    by_cases hq : q = p
    · subst q
      rw [ne_eq, resolveScheduleAction_eq_start, not_lt] at hs
      exact fun hne => hs.resolve_left hne
    · exact hf q hq
  | @pop r r' j js hw hfree _ _ ih =>
    obtain ⟨hjn, -, hjw⟩ := hc.waiting p j (by simp [hw])
    refine ih (hc.pop hw hfree) fun q hq => ?_
    rw [← startJobOk_setWaitList]
    exact ((hf q hq).setWaitList_ne hq js).startJobOk
      (hc.setWaitList_sublist (by rw [hw]; exact List.sublist_cons_self _ _)) hjn hjw

/-- Whatever the drain returns keeps the invariant. -/
theorem Core.startJobsOnWaitList_wf {p : String} {n : Nat} {r r' : PipelineRunner}
    (hc : Core env r) (hf : ∀ q, q ≠ p → Full env r q)
    (h : startJobsOnWaitList env now n p r = some r') : WF env r' :=
  (startJobsOnWaitList_drains ((hc.sorted p).imp Nat.ne_of_lt)
    (fun j hj => (hc.waiting p j hj).2.1) h).wf hc hf

/-! ## Scheduling -/

section Schedule

variable {fuel : Nat} {p : String} {opts : ScheduleOpts} {newV4 : Except Error UUID}
  {r r' : PipelineRunner} {res : Except Error JobPtr}

/-- What `ScheduleAsync` leaves: the state as it was, or a new job that has neither started nor
ended, registered under the drawn id and then queued, put in place of the last waiting job (which
is canceled), or started. -/
theorem scheduleAsync_cases (h : scheduleAsync env now fuel p opts newV4 r = some (res, r')) :
    r' = r ∨ ∃ j : PipelineJob, newV4 = .ok j.id ∧ j.pipeline = p ∧ j.Waiting ∧
      ((resolveScheduleAction env r p = .queue ∧
          r' = ((r.register j).setWaitList p (r.waitListByPipeline.slice p ++ [r.next])).requestPersist) ∨
        (resolveScheduleAction env r p = .replace ∧
          r' = (((r.register j).modifyJob ((r.waitListByPipeline.slice p).getD
              ((r.waitListByPipeline.slice p).length - 1) 0) fun j => { j with canceled := true }).setWaitList
            p ((r.waitListByPipeline.slice p).set ((r.waitListByPipeline.slice p).length - 1)
              r.next)).requestPersist) ∨
        (resolveScheduleAction env r p = .start ∧
          ∃ r2, startJob env now fuel r.next (r.register j) = some r2 ∧ r' = r2.requestPersist)) := by
  unfold scheduleAsync at h
  split at h
  · exact .inl (Prod.mk.inj (Option.some.inj h)).2.symm
  · rename_i pd _
    dsimp only at h
    split_ifs at h
    · exact .inl (Prod.mk.inj (Option.some.inj h)).2.symm
    · exact .inl (Prod.mk.inj (Option.some.inj h)).2.symm
    · cases newV4 with
      | error err => exact .inl (Prod.mk.inj (Option.some.inj h)).2.symm
      | ok id =>
        refine .inr ⟨{ id, pipeline := p, created := now, user := opts.user, tasks := buildJobTasks pd.tasks },
          rfl, rfl, ⟨rfl, rfl, rfl⟩, ?_⟩
        dsimp only at h
        split at h
        · simp only [Option.some.injEq, Prod.mk.injEq] at h
          exact .inl ⟨‹_›, h.2.symm⟩
        · simp only [Option.some.injEq, Prod.mk.injEq] at h
          exact .inr (.inl ⟨‹_›, h.2.symm⟩)
        · refine .inr (.inr ⟨?_, ?_⟩)
          · cases hact : resolveScheduleAction env r p <;> simp_all
          · obtain ⟨r2, h2, h3⟩ := Option.map_eq_some'.1 h
            exact ⟨r2, h2, (Prod.mk.inj h3).2.symm⟩

/-- `ScheduleAsync` that takes the replace action, computed. -/
theorem scheduleAsync_of_replace (now : Time) (fuel : Nat) (opts : ScheduleOpts) (id : UUID)
    (hact : resolveScheduleAction env r p = .replace) :
    ∃ j : PipelineJob, j.id = id ∧ j.pipeline = p ∧ j.Waiting ∧
      scheduleAsync env now fuel p opts (.ok id) r = some (.ok r.next,
        (((r.register j).modifyJob ((r.waitListByPipeline.slice p).getD
            ((r.waitListByPipeline.slice p).length - 1) 0) fun j => { j with canceled := true }).setWaitList
          p ((r.waitListByPipeline.slice p).set ((r.waitListByPipeline.slice p).length - 1)
            r.next)).requestPersist) := by
  cases hp : env.pipelines.lookup p with
  | none =>
    have := (resolveScheduleAction_eq_replace hact).2.2.1
    simp [Env.pipelineDef, hp, default] at this
  | some pd =>
    refine ⟨{ id, pipeline := p, created := now, user := opts.user, tasks := buildJobTasks pd.tasks },
      rfl, rfl, ⟨rfl, rfl, rfl⟩, ?_⟩
    simp only [scheduleAsync, hp, hact]
    rfl

/-- Under the replace strategy the action replaces the one waiting job. -/
theorem Core.replace_single (hc : Core env r) (hact : resolveScheduleAction env r p = .replace) :
    ∃ d, r.waitListByPipeline.slice p = [d] := by
  obtain ⟨-, -, hrep, hne⟩ := resolveScheduleAction_eq_replace hact
  have := hc.replaceOne p hrep
  match hl : r.waitListByPipeline.slice p, hne with
  | [d], _ => exact ⟨d, rfl⟩
  | _ :: _ :: _, _ => simp [hl] at this

/-- `ScheduleAsync` from a state that keeps the invariant: the state as it was, or a new job
that has neither started nor ended, registered and then queued; put in place of the one waiting
job, which is canceled; or started on an empty wait list, its graph built, or else canceled and
the pipeline drained. -/
theorem WF.scheduleAsync_cases (hw : WF env r)
    (h : scheduleAsync env now fuel p opts newV4 r = some (res, r')) :
    r' = r ∨ ∃ j : PipelineJob, newV4 = .ok j.id ∧ j.pipeline = p ∧ j.Waiting ∧
      ((resolveScheduleAction env r p = .queue ∧
          r' = ((r.register j).setWaitList p (r.waitListByPipeline.slice p ++ [r.next])).requestPersist) ∨
        (∃ d, r.waitListByPipeline.slice p = [d] ∧ resolveScheduleAction env r p = .replace ∧
          r' = (((r.register j).modifyJob d fun j => { j with canceled := true }).setWaitList p
            [r.next]).requestPersist) ∨
        (resolveScheduleAction env r p = .start ∧ r.waitListByPipeline.slice p = [] ∧
          ((graphBuilds env j = true ∧ r' = (startJobOk now r.next (r.register j)).requestPersist) ∨
            ∃ err r3, graphBuilds env j = false ∧
              startJobsOnWaitList env now fuel p ((r.register j).modifyJob r.next (cancelWith err)) =
                some r3 ∧ r' = r3.requestPersist.requestPersist))) := by
  rcases Prunner.scheduleAsync_cases h with rfl | ⟨j, hid, hjp, hj, hq | ⟨hact, rfl⟩ | ⟨hact, r2, h2, rfl⟩⟩
  · exact .inl rfl
  · exact .inr ⟨j, hid, hjp, hj, .inl hq⟩
  · obtain ⟨d, hd⟩ := hw.core.replace_single hact
    refine .inr ⟨j, hid, hjp, hj, .inr (.inl ⟨d, hd, hact, ?_⟩)⟩
    simp only [hd, List.length_singleton, Nat.sub_self, List.getD_cons_zero, List.set_cons_zero]
  · have hWp : r.waitListByPipeline.slice p = [] := by
      by_contra hne
      exact absurd (hw.full p hne) (by have := resolveScheduleAction_eq_start.1 hact; omega)
    refine .inr ⟨j, hid, hjp, hj, .inr (.inr ⟨hact, hWp, ?_⟩)⟩
    cases hb : graphBuilds env j with
    | true =>
      rw [startJob, startJobWith_of_builds (by simpa using hb), Option.some.injEq] at h2
      exact .inl ⟨rfl, by rw [h2]⟩
    | false =>
      obtain ⟨err, he⟩ := startJobWith_of_fails now (startJobsOnWaitList env now fuel)
        (show graphBuilds env ((r.register j).heap r.next) = false by simpa using hb)
      rw [startJob, he, Option.map_eq_some'] at h2
      obtain ⟨r3, h3, rfl⟩ := h2
      exact .inr ⟨err, r3, rfl, by simpa [hjp] using h3, rfl⟩

/-- The replace action keeps the invariant: the one waiting job is canceled and the new job waits
in its place. -/
theorem WF.replace (hw : WF env r) {j : PipelineJob} (hj : j.Waiting) (hjp : j.pipeline = p)
    (hfresh : ∀ ptr < r.next, (r.heap ptr).id ≠ j.id) {d : JobPtr}
    (hd : r.waitListByPipeline.slice p = [d]) (hact : resolveScheduleAction env r p = .replace) :
    WF env (((r.register j).modifyJob d fun j => { j with canceled := true }).setWaitList p
      [r.next]).requestPersist := by
  obtain ⟨hc, hf⟩ := hw
  have hc1 := hc.register hj hfresh
  have hW : ∀ q, ∀ k ∈ r.waitListByPipeline.slice q, k < r.next := fun q k hk => (hc.waiting q k hk).1
  have hnew : ((r.register j).heap r.next).pipeline = p ∧ ((r.register j).heap r.next).Waiting := by
    simpa using ⟨hjp, hj⟩
  obtain ⟨hC, hQL, -, -⟩ := resolveScheduleAction_eq_replace hact
  obtain ⟨hdn, hdp, hdw⟩ := hc.waiting p d (by simp [hd])
  have hdW : ∀ q, d ∉ ((r.register j).setWaitList p []).waitListByPipeline.slice q := fun q hq => by
    rw [slice_setWaitList] at hq
    split at hq
    · cases hq
    · exact ‹¬q = p› (hdp ▸ (hc.waiting q d hq).2.1).symm
  have hc2 := (hc1.setWaitList_sublist (List.nil_sublist _)).modifyJob_unstarted
    (f := fun j => { j with canceled := true })
    (by simpa [PipelineRunner.register_heap_of_lt _ hdn] using hdw.1) hdW fun _ => ⟨rfl, rfl, rfl, rfl⟩
  have hcount : ∀ q, runningJobsCount ((r.register j).modifyJob d
      fun j => { j with canceled := true }) q = runningJobsCount r q := fun q => by
    rw [runningJobsCount_modifyJob (by simp [PipelineJob.isRunning, PipelineRunner.register_heap_of_lt _ hdn,
      hdw.1]), hc.runningJobsCount_register (PipelineJob.isRunning_eq_false_of_waiting hj)]
  have hnd : r.next ≠ d := (Nat.ne_of_lt hdn).symm
  have hc3 := hc2.enqueue (a := r.next) (p := p) (by simp) (by simpa [hnd] using hnew.1)
    (by simpa [hnd] using hnew.2)
    (fun q k hk => by
      simp only [PipelineRunner.modifyJob_waitListByPipeline, slice_setWaitList] at hk
      split at hk
      · cases hk
      · exact hW q k hk)
    (fun s hs => hc.spawned_lt hs)
    (fun l hl h0 => by
      have : l ≠ 0 := fun h0 => hQL (h0 ▸ hl)
      simp only [PipelineRunner.modifyJob_waitListByPipeline, slice_setWaitList, if_true,
        List.length_nil]
      omega)
    (fun _ => by simp [slice_setWaitList])
  simp only [PipelineRunner.modifyJob_waitListByPipeline, slice_setWaitList, if_true,
    List.nil_append, PipelineRunner.modifyJob_setWaitList, PipelineRunner.setWaitList_setWaitList] at hc3
  refine WF.of_sameView ⟨hc3, fun q => ?_⟩ (sameView_requestPersist _)
  by_cases hq : q = p
  · subst q
    intro _
    simpa [hcount] using hC
  · refine Full.setWaitList_ne ?_ hq _
    simp only [Full, PipelineRunner.modifyJob_waitListByPipeline,
      PipelineRunner.register_waitListByPipeline, hcount]
    exact hf q

/-- `ScheduleAsync` keeps the invariant when the drawn id is new. -/
theorem WF.scheduleAsync (hw : WF env r)
    (fresh : ∀ id, newV4 = .ok id → ∀ ptr < r.next, (r.heap ptr).id ≠ id)
    (h : scheduleAsync env now fuel p opts newV4 r = some (res, r')) : WF env r' := by
  rcases hw.scheduleAsync_cases h with rfl | ⟨j, hid, hjp, hj, hcase⟩
  · exact hw
  have hc := hw.core
  have hf := hw.full
  have hc1 := hc.register hj (fresh _ hid)
  have hW : ∀ q, ∀ k ∈ r.waitListByPipeline.slice q, k < r.next := fun q k hk => (hc.waiting q k hk).1
  have hS : ∀ s ∈ r.spawned, s < r.next := fun s hs => hc.spawned_lt hs
  have hnew : ((r.register j).heap r.next).pipeline = p ∧ ((r.register j).heap r.next).Waiting := by
    simpa using ⟨hjp, hj⟩
  rcases hcase with ⟨hact, rfl⟩ | ⟨d, hd, hact, rfl⟩ | ⟨hact, hWp, ⟨-, rfl⟩ | ⟨err, r3, -, h3, rfl⟩⟩
  · -- Queue
    obtain ⟨hC, hrep, hlimit⟩ := resolveScheduleAction_eq_queue hact
    refine WF.of_sameView ⟨hc1.enqueue (by simp) hnew.1 hnew.2 hW hS
      (fun l hl _ => hlimit l hl) hrep, fun q => ?_⟩ (sameView_requestPersist _)
    by_cases hq : q = p
    · subst q
      intro _
      simpa [hc.runningJobsCount_register (PipelineJob.isRunning_eq_false_of_waiting hj)] using hC
    · exact ((hf q).register hc hj).setWaitList_ne hq _
  · -- Replace
    exact hw.replace hj hjp (fresh _ hid) hd hact
  · -- Start, the graph built
    have hfree := resolveScheduleAction_eq_start.1 hact
    refine WF.of_sameView ⟨hc1.startJobOk (by simp) hnew.2 (fun q hq => lt_irrefl _ (hW q _ hq)) ?_
      (fun s hs _ => hS s hs) ?_, fun q => ((hf q).register hc hj).startJobOk hc1 (by simp) hnew.2⟩
      (sameView_requestPersist _)
    · simpa [hjp, hc.runningJobsCount_register (PipelineJob.isRunning_eq_false_of_waiting hj)] using hfree
    · simp [hjp, hWp]
  · -- Start, the graph not built
    refine (WF.of_sameView (Core.startJobsOnWaitList_wf ?_ (fun q _ => ?_) h3)
      (sameView_requestPersist _)).of_sameView (sameView_requestPersist _)
    · exact hc1.modifyJob_unstarted (by simpa using hnew.2.1) (fun q hq => lt_irrefl _ (hW q _ hq))
        fun _ => ⟨rfl, rfl, rfl, rfl⟩
    · exact ((hf q).register hc hj).modifyJob_unstarted (by simpa using hnew.2.1) fun _ => rfl

end Schedule

/-! ## Completion and callbacks -/

section Complete

variable {fuel i : Nat} {lastErr : Option Error} {c : JobPtr} {r r' : PipelineRunner}

/-- What finishing the execution at `i` of job `c` does: it marks the execution done, completes
the job, drains the job's pipeline and asks for a save. -/
theorem Core.finishExecution_eq (hc : Core env r) (hi : r.executions[i]? = some ⟨c, false⟩)
    (h : finishExecution env now fuel i lastErr r = some r') :
    ∃ r3, startJobsOnWaitList env now fuel (r.heap c).pipeline
        ({ r with executions := r.executions.set i ⟨c, true⟩ }.modifyJob c
          fun j => { j with completed := true, «end» := some now, lastError := lastErr }) = some r3 ∧
      r' = r3.requestPersist := by
  have hc_lt : c < r.next := hc.spawned_lt (List.mem_map.2 ⟨_, List.getElem?_mem hi, rfl⟩)
  have hlookup : r.jobsByID.lookup (r.heap c).id = some c := (hc.byID _ c).2 ⟨hc_lt, rfl⟩
  have he : r.executions.getD i ⟨0, false⟩ = ⟨c, false⟩ := by
    rw [List.getD_eq_getElem?_getD, hi, Option.getD_some]
  unfold finishExecution jobCompleted at h
  rw [he] at h
  dsimp only at h
  rw [hlookup] at h
  simp only [PipelineRunner.modifyJob_heap_self, Option.map_eq_some'] at h
  obtain ⟨r3, h3, rfl⟩ := h
  exact ⟨r3, h3, rfl⟩

theorem WF.finishExecution (hw : WF env r) (hi : r.executions[i]? = some ⟨c, false⟩)
    (h : finishExecution env now fuel i lastErr r = some r') : WF env r' := by
  obtain ⟨r3, h3, rfl⟩ := hw.core.finishExecution_eq hi h
  have hc' := hw.core.complete hi
    (f := fun j => { j with completed := true, «end» := some now, lastError := lastErr })
    fun _ => ⟨rfl, rfl, rfl, rfl, rfl⟩
  exact (hc'.startJobsOnWaitList_wf (fun q hq => (hw.full q).complete hw.core (Ne.symm hq)) h3).of_sameView
    (sameView_requestPersist _)

end Complete

/-- A task's or a stage's change writes only the tasks of a job. -/
theorem sameView_handleTaskChange (r : PipelineRunner) (t : TaskChange) :
    SameView r (handleTaskChange t r) := by
  unfold handleTaskChange
  split
  · exact .refl r
  · split
    · exact .refl r
    · exact (sameView_modifyJob _ _ _ fun _ => by exact ⟨rfl, rfl, rfl, rfl, rfl⟩).trans
        (sameView_requestPersist _)

theorem sameView_handleStageChange (r : PipelineRunner) (s : StageChange) :
    SameView r (handleStageChange s r) := by
  unfold handleStageChange
  split
  · exact .refl r
  · split
    · exact .refl r
    · exact (sameView_modifyJob _ _ _ fun _ => by exact ⟨rfl, rfl, rfl, rfl, rfl⟩).trans
        (sameView_requestPersist _)

/-! ## Runs -/

theorem WF.step {r r' : PipelineRunner} (hw : WF env r) (h : Step env r r') : WF env r' := by
  cases h with
  | scheduleAsync now fuel p opts newV4 fresh h => exact hw.scheduleAsync fresh h
  | jobCompleted now fuel i lastErr job hi h => exact hw.finishExecution hi h
  | handleTaskChange t => exact hw.of_sameView (sameView_handleTaskChange r t)
  | handleStageChange s => exact hw.of_sameView (sameView_handleStageChange r s)

/-- Every state a run from the empty runner reaches keeps the invariant. -/
theorem Reachable.wf {r : PipelineRunner} (h : Reachable env r) : WF env r := by
  induction h with
  | empty => exact empty_wf
  | step _ hs ih => exact ih.step hs

/-! ## Admission and indexes in every reachable state -/

/-- Two pipelines of concurrency one whose graphs are all built: `build` queues, `deploy`
replaces. -/
def buildEnv : Env :=
  ⟨((∅ : GoMap String PipelineDef).insert "build" { concurrency := 1 }).insert "deploy"
    { concurrency := 1, queueStrategy := .replace }, fun _ => .ok ()⟩

/-- Three `ScheduleAsync("build")`: the first job starts, the others wait; then the first two
executions finish and the waiting jobs start in turn. -/
theorem buildEnv_run : ∃ s u, Reachable buildEnv s ∧ Relation.ReflTransGen (Step buildEnv) s u ∧
    s.next = 3 ∧ runningJobsCount s "build" = 1 ∧ s.waitListByPipeline.slice "build" = [1, 2] ∧
    (u.heap 1).start.isSome ∧ (u.heap 2).start.isSome := by
  have h1 : Reachable buildEnv _ := .step .empty (Step.scheduleAsync 0 1 "build" ⟨""⟩ (.ok 0)
    (fun _ _ ptr h => absurd h (Nat.not_lt_zero _)) rfl)
  have h2 := h1.step (Step.scheduleAsync 1 1 "build" ⟨""⟩ (.ok 1)
    (fun _ hid => by cases hid; decide) rfl)
  have h3 := h2.step (Step.scheduleAsync 2 1 "build" ⟨""⟩ (.ok 2)
    (fun _ hid => by cases hid; decide) rfl)
  exact ⟨_, _, h3, .tail (.single (Step.jobCompleted 3 2 0 none 0 (by decide) rfl))
    (Step.jobCompleted 4 2 1 none 1 (by decide) rfl), by decide, by decide, by decide, by decide, by decide⟩

/-- A defined pipeline of concurrency at least one never runs more jobs than its concurrency. -/
theorem runningJobsCount_le_concurrency {r : PipelineRunner} (hr : Reachable env r) {p : String}
    {pd : PipelineDef} (hp : env.pipelines.lookup p = some pd) (hc : 1 ≤ pd.concurrency) :
    (runningJobsCount r p : Int) ≤ pd.concurrency := by
  have := hr.wf.core.bound p
  simp only [Env.pipelineDef, hp, Option.getD_some] at this
  omega

theorem runningJobsCount_le_concurrency_build :
    ∃ r, Reachable buildEnv r ∧ runningJobsCount r "build" = 1 ∧
      (runningJobsCount r "build" : Int) ≤ 1 := by
  obtain ⟨r, -, hr, -, -, h1, -⟩ := buildEnv_run
  exact ⟨r, hr, h1, runningJobsCount_le_concurrency hr
    (show buildEnv.pipelines.lookup "build" = some { concurrency := 1 } from rfl) (by decide)⟩

/-- No job waits while its pipeline has a free slot. -/
theorem concurrency_le_runningJobsCount {r : PipelineRunner} (hr : Reachable env r) {p : String}
    (hw : r.waitListByPipeline.slice p ≠ []) :
    (env.pipelineDef p).concurrency ≤ runningJobsCount r p :=
  hr.wf.full p hw

theorem concurrency_le_runningJobsCount_build :
    ∃ r, Reachable buildEnv r ∧ r.waitListByPipeline.slice "build" = [1, 2] ∧
      (buildEnv.pipelineDef "build").concurrency ≤ runningJobsCount r "build" := by
  obtain ⟨r, -, hr, -, -, -, hw, -⟩ := buildEnv_run
  exact ⟨r, hr, hw, concurrency_le_runningJobsCount hr (by simp [hw])⟩

/-- The indexes of jobs agree: a job of `jobsByID` is under its id and once in the list of its
pipeline and in no other, a job of `jobsByPipeline` is in `jobsByID` under its id, and a job on a
wait list is in `jobsByID`, belongs to the pipeline, has neither started nor ended, and stands once
on that wait list and on no other. -/
theorem jobIndexes {r : PipelineRunner} (hr : Reachable env r) :
    (∀ id ptr, r.jobsByID.lookup id = some ptr → (r.heap ptr).id = id ∧
      (r.jobsByPipeline.slice (r.heap ptr).pipeline).count ptr = 1 ∧
      ∀ q, q ≠ (r.heap ptr).pipeline → ptr ∉ r.jobsByPipeline.slice q) ∧
    (∀ q ptr, ptr ∈ r.jobsByPipeline.slice q → r.jobsByID.lookup (r.heap ptr).id = some ptr) ∧
    (∀ p ptr, ptr ∈ r.waitListByPipeline.slice p →
      r.jobsByID.lookup (r.heap ptr).id = some ptr ∧ (r.heap ptr).pipeline = p ∧
      (r.heap ptr).start = none ∧ (r.heap ptr).completed = false ∧ (r.heap ptr).canceled = false ∧
      (r.waitListByPipeline.slice p).count ptr = 1 ∧
      ∀ q, q ≠ p → ptr ∉ r.waitListByPipeline.slice q) := by
  have hc := hr.wf.core
  refine ⟨fun id ptr h => ?_, fun q ptr h => ?_, fun p ptr h => ?_⟩
  · obtain ⟨hlt, rfl⟩ := (hc.byID id ptr).1 h
    exact ⟨rfl, List.count_eq_one_of_mem (hc.nodup_jobsByPipeline _) (hc.mem_jobsByPipeline.2 ⟨hlt, rfl⟩),
      fun q hq hm => hq (hc.mem_jobsByPipeline.1 hm).2.symm⟩
  · exact (hc.byID _ ptr).2 ⟨(hc.mem_jobsByPipeline.1 h).1, rfl⟩
  · obtain ⟨hlt, hp, hw⟩ := hc.waiting p ptr h
    exact ⟨(hc.byID _ ptr).2 ⟨hlt, rfl⟩, hp, hw.1, hw.2.1, hw.2.2,
      List.count_eq_one_of_mem ((hc.sorted p).imp Nat.ne_of_lt) h,
      fun q hq hm => hq ((hc.waiting q ptr hm).2.1.symm.trans hp)⟩

theorem jobIndexes_build :
    ∃ r, Reachable buildEnv r ∧ r.waitListByPipeline.slice "build" = [1, 2] ∧
      (r.waitListByPipeline.slice "build").count 1 = 1 := by
  obtain ⟨r, -, hr, -, -, -, hw, -⟩ := buildEnv_run
  exact ⟨r, hr, hw, ((jobIndexes hr).2.2 "build" 1 (by simp [hw])).2.2.2.2.2.1⟩

end Prunner

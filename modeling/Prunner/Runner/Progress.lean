/-
The runner wastes no slot. In every reachable state, when a running job's execution returns,
`jobCompleted` gives the slot it frees to the first job of its pipeline's wait list: that job
starts and leaves the wait list, the rest keep their places, and no other pipeline changes. When
the wait list is empty, the slot stays free.
-/
import Prunner.Store.Restore

namespace Prunner

variable {env : Env} {now : Time}

section Complete

variable {fuel i : Nat} {lastErr : Option Error} {a : JobPtr} {r : PipelineRunner}

/-- The job completed by the execution at `i`, before the drain. -/
def completeAt (now : Time) (i : Nat) (a : JobPtr) (lastErr : Option Error) (r : PipelineRunner) :
    PipelineRunner :=
  { r with executions := r.executions.set i ⟨a, true⟩ }.modifyJob a
    fun j => { j with completed := true, «end» := some now, lastError := lastErr }

/-- Finishing the execution of job `a` completes it, then drains its pipeline and asks for a
save. -/
theorem Core.finishExecution_eq_map (hc : Core env r) (hi : r.executions[i]? = some ⟨a, false⟩) :
    finishExecution env now fuel i lastErr r =
      (startJobsOnWaitList env now fuel (r.heap a).pipeline (completeAt now i a lastErr r)).map
        PipelineRunner.requestPersist := by
  have ha : a < r.next := hc.spawned_lt (List.mem_map.2 ⟨_, List.getElem?_mem hi, rfl⟩)
  have he : r.executions.getD i ⟨0, false⟩ = ⟨a, false⟩ := by
    rw [List.getD_eq_getElem?_getD, hi, Option.getD_some]
  unfold finishExecution jobCompleted
  rw [he]
  dsimp only
  rw [(hc.byID _ a).2 ⟨ha, rfl⟩]
  simp only [PipelineRunner.modifyJob_heap_self, completeAt]

/-- The job of an execution that has not returned is running, and completing it frees one slot
of its pipeline. -/
theorem Core.runningJobsCount_completeAt (hc : Core env r)
    (hi : r.executions[i]? = some ⟨a, false⟩) :
    runningJobsCount (completeAt now i a lastErr r) (r.heap a).pipeline + 1 =
      runningJobsCount r (r.heap a).pipeline := by
  obtain ⟨ha, hstart, hdone, hcancel⟩ := hc.running_of_execution hi
  exact @Indexed.runningJobsCount_modifyJob_end { r with executions := r.executions.set i ⟨a, true⟩ }
    ⟨hc.byID, hc.byPipeline⟩ a (fun j => { j with completed := true, «end» := some now, lastError := lastErr }) ha
    (by simp [PipelineJob.isRunning, hstart, hdone, hcancel]) (by simp [PipelineJob.isRunning])

theorem Core.runningJobsCount_completeAt_of_ne (hc : Core env r) {q : String}
    (hq : (r.heap a).pipeline ≠ q) :
    runningJobsCount (completeAt now i a lastErr r) q = runningJobsCount r q :=
  Indexed.runningJobsCount_modifyJob_of_ne (r := { r with executions := r.executions.set i ⟨a, true⟩ })
    ⟨hc.byID, hc.byPipeline⟩ hq

theorem completeAt_heap_ne {x : JobPtr} (h : x ≠ a) : (completeAt now i a lastErr r).heap x = r.heap x :=
  PipelineRunner.modifyJob_heap_ne _ h

@[simp] theorem completeAt_waitListByPipeline :
    (completeAt now i a lastErr r).waitListByPipeline = r.waitListByPipeline := rfl

/-- Completing a running job of a pipeline whose wait list is not empty frees a slot of it. -/
theorem WF.start_completeAt (hw : WF env r) (hi : r.executions[i]? = some ⟨a, false⟩)
    (hne : r.waitListByPipeline.slice (r.heap a).pipeline ≠ []) :
    resolveScheduleAction env (completeAt now i a lastErr r) (r.heap a).pipeline = .start := by
  have hfull := hw.full _ hne
  have hbound := hw.core.bound (r.heap a).pipeline
  have hcount : runningJobsCount (completeAt now i a lastErr r) (r.heap a).pipeline + 1 =
      runningJobsCount r (r.heap a).pipeline := hw.core.runningJobsCount_completeAt hi
  rw [resolveScheduleAction_eq_start]; omega

end Complete

/-! ## A finished job's slot goes to the next waiting job -/

/-- When the execution of a running job of a pipeline returns, with the graph of the first job
waiting for that pipeline built: `jobCompleted` returns and completes the job; the first waiting
job, if any, starts and leaves the wait list, the others keep their places; the pipeline's count
of running jobs goes down by one only when no job was waiting; and no other pipeline's wait list
or count changes. -/
theorem finishExecution_refills_slot {r : PipelineRunner} (hr : Reachable env r) {i : Nat}
    {a : JobPtr} (hi : r.executions[i]? = some ⟨a, false⟩) (lastErr : Option Error) (fuel : Nat)
    (hb : ∀ b ∈ (r.waitListByPipeline.slice (r.heap a).pipeline).take 1,
      graphBuilds env (r.heap b) = true) :
    ∃ r', finishExecution env now (fuel + 1) i lastErr r = some r' ∧
      (r'.heap a).completed = true ∧
      r'.waitListByPipeline.slice (r.heap a).pipeline =
        (r.waitListByPipeline.slice (r.heap a).pipeline).drop 1 ∧
      (∀ b ∈ (r.waitListByPipeline.slice (r.heap a).pipeline).take 1,
        (r'.heap b).start = some now) ∧
      runningJobsCount r' (r.heap a).pipeline + 1 = runningJobsCount r (r.heap a).pipeline +
        ((r.waitListByPipeline.slice (r.heap a).pipeline).take 1).length ∧
      ∀ q, q ≠ (r.heap a).pipeline →
        r'.waitListByPipeline.slice q = r.waitListByPipeline.slice q ∧
          runningJobsCount r' q = runningJobsCount r q := by
  have hw := hr.wf
  have hstart := (hw.core.running_of_execution hi).2.1
  have hc1 : Core env (completeAt now i a lastErr r) :=
    hw.core.complete hi fun _ => ⟨rfl, rfl, rfl, rfl, rfl⟩
  have hcount : runningJobsCount (completeAt now i a lastErr r) (r.heap a).pipeline + 1 =
      runningJobsCount r (r.heap a).pipeline := hw.core.runningJobsCount_completeAt hi
  have hcompleted : ((completeAt now i a lastErr r).heap a).completed = true := by
    simp [completeAt]
  rw [hw.core.finishExecution_eq_map hi]
  cases hW : r.waitListByPipeline.slice (r.heap a).pipeline with
  | nil =>
    -- nothing waits: the drain stops at once and the slot stays free
    rw [startJobsOnWaitList_of_drains
      (.stop (.inl (by rw [completeAt_waitListByPipeline]; exact hW))) fuel]
    refine ⟨_, rfl, hcompleted, by simp [hW], by simp, by simpa using hcount, fun q hq => ?_⟩
    simp only [PipelineRunner.requestPersist_waitListByPipeline, slice_setWaitList, if_neg hq,
      runningJobsCount_requestPersist, runningJobsCount_setWaitList, completeAt_waitListByPipeline,
      true_and]
    exact hw.core.runningJobsCount_completeAt_of_ne (Ne.symm hq)
  | cons b rest =>
    -- the pipeline was full; the freed slot goes to `b`, and then it is full again
    have hbW : b ∈ r.waitListByPipeline.slice (r.heap a).pipeline := by
      rw [hW]; exact List.mem_cons_self _ _
    obtain ⟨hbn, hbp, hbw⟩ := hw.core.waiting _ b hbW
    have hba : b ≠ a := fun h => by rw [h] at hbw; simp [hbw.1] at hstart
    have hfull := hw.full (r.heap a).pipeline (by rw [hW]; exact List.cons_ne_nil _ _)
    have hfree : resolveScheduleAction env (completeAt now i a lastErr r) (r.heap a).pipeline =
        .start := hw.start_completeAt hi (by rw [hW]; exact List.cons_ne_nil _ _)
    have hb' : graphBuilds env ((completeAt now i a lastErr r).heap b) = true := by
      rw [completeAt_heap_ne hba]; exact hb b (by simp [hW])
    have hcountb : ∀ q, runningJobsCount (startJobOk now b (completeAt now i a lastErr r)) q =
        runningJobsCount (completeAt now i a lastErr r) q +
          if (r.heap a).pipeline = q then 1 else 0 := fun q => by
      rw [hc1.runningJobsCount_startJobOk hbn (by rwa [completeAt_heap_ne hba]),
        completeAt_heap_ne hba, hbp]
    have hcount2 := hcountb (r.heap a).pipeline
    rw [if_pos rfl] at hcount2
    have hstop : resolveScheduleAction env
        ((startJobOk now b (completeAt now i a lastErr r)).setWaitList (r.heap a).pipeline rest)
        (r.heap a).pipeline ≠ .start := by
      rw [ne_eq, resolveScheduleAction_eq_start, runningJobsCount_setWaitList, hcount2]; omega
    rw [startJobsOnWaitList_of_drains (.pop (by rwa [completeAt_waitListByPipeline]) hfree hb'
      (.stop (.inr hstop))) fuel]
    refine ⟨_, rfl, ?_, by simp, fun x hx => ?_, ?_, fun q hq => ?_⟩
    · simpa [startJobOk_heap_ne (Ne.symm hba)] using hcompleted
    · simp only [List.take_succ_cons, List.take_zero, List.mem_singleton] at hx
      subst x; simp
    · simp only [runningJobsCount_requestPersist, runningJobsCount_setWaitList, hcount2]
      simpa using hcount
    · simp only [PipelineRunner.requestPersist_waitListByPipeline, slice_setWaitList, if_neg hq,
        runningJobsCount_requestPersist, runningJobsCount_setWaitList, startJobOk_waitListByPipeline,
        completeAt_waitListByPipeline, true_and]
      rw [hcountb, if_neg (Ne.symm hq), Nat.add_zero]
      exact hw.core.runningJobsCount_completeAt_of_ne (Ne.symm hq)

/-- Three `ScheduleAsync("build")` in `buildEnv`, of concurrency one: job 0 runs, jobs 1 and 2
wait. When job 0's execution returns, job 1 takes its slot and job 2 waits on. -/
theorem finishExecution_refills_slot_build :
    ∃ r r', Reachable buildEnv r ∧ r.waitListByPipeline.slice "build" = [1, 2] ∧
      finishExecution buildEnv 3 2 0 none r = some r' ∧ (r'.heap 0).completed = true ∧
      r'.waitListByPipeline.slice "build" = [2] ∧ (r'.heap 1).start = some 3 ∧
      runningJobsCount r' "build" = runningJobsCount r "build" := by
  have h1 : Reachable buildEnv _ := .step .empty (Step.scheduleAsync 0 1 "build" ⟨""⟩ (.ok 0)
    (fun _ _ ptr h => absurd h (Nat.not_lt_zero _)) rfl)
  have h2 := h1.step (Step.scheduleAsync 1 1 "build" ⟨""⟩ (.ok 1)
    (fun _ hid => by cases hid; decide) rfl)
  have h3 := h2.step (Step.scheduleAsync 2 1 "build" ⟨""⟩ (.ok 2)
    (fun _ hid => by cases hid; decide) rfl)
  obtain ⟨r', hf, hc, hw, hs, hn, -⟩ :=
    @finishExecution_refills_slot buildEnv 3 _ h3 0 0 (by decide) none 1 (by decide)
  exact ⟨_, r', h3, by decide, hf, hc, hw.trans (by decide), hs 1 (by decide),
    Nat.add_right_cancel (hn : runningJobsCount r' "build" + 1 = runningJobsCount _ "build" + 1)⟩

end Prunner

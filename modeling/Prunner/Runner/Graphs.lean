/-
The graphs Go builds. `scheduler.NewExecutionGraph` does not read the variable `jobID` that
`buildPipelineGraph` puts on each stage, and every job of a pipeline keeps the tasks
`buildJobTasks` builds from the one definition: the graphs of a pipeline's jobs are built alike. A
job starts only once its graph is built, and a pipeline has jobs waiting only while running jobs
take all its slots. So in every reachable state the waiting jobs of a pipeline with a slot have
their graphs built, and the drain never pops a job whose graph fails: `ScheduleAsync` and
`jobCompleted` return from every reachable state, and so does the restart from the state's
snapshot, with the jobs restored, each wait list drained from its head, and the admission bounds.
-/
import Prunner.Runner.JobTasks
import Prunner.Runner.Progress

namespace Prunner

variable {env : Env} {now : Time}

/-! ## What a graph is built from -/

theorem isOk_buildPipelineGraph (id : UUID) (tasks : JobTasks) :
    (buildPipelineGraph env id tasks).isOk = (env.newExecutionGraph (pipelineStages id tasks)).isOk := by
  unfold buildPipelineGraph
  split <;> simp_all [Except.isOk, Except.toBool]

/-- The stages read of each task only its name and its definition. -/
theorem pipelineStages_eq_of_spec {tasks tasks' : JobTasks}
    (h : tasks'.map JobTask.spec = tasks.map JobTask.spec) (id : UUID) :
    pipelineStages id tasks' = pipelineStages id tasks := by
  have key : ∀ l : JobTasks, pipelineStages id l =
      (l.map JobTask.spec).map fun s => ⟨s.1, s.2.script, s.2.dependsOn, s.2.allowFailure, id⟩ :=
    fun l => by rw [List.map_map]; rfl
  rw [key, key, h]

/-- A job that keeps its id and the names and definitions of its tasks keeps its graph. -/
theorem graphBuilds_congr {j j' : PipelineJob} (hid : j'.id = j.id)
    (h : j'.tasks.map JobTask.spec = j.tasks.map JobTask.spec) :
    graphBuilds env j' = graphBuilds env j := by
  rw [graphBuilds, graphBuilds, hid, isOk_buildPipelineGraph, isOk_buildPipelineGraph,
    pipelineStages_eq_of_spec h]

/-- `scheduler.NewExecutionGraph` builds a graph for a job's stages or not whatever the job: it
does not read the variable `jobID`, which `buildPipelineGraph` injects for the task runner. -/
def Env.IgnoresJobID (env : Env) : Prop :=
  ∀ (id id' : UUID) (tasks : JobTasks), (env.newExecutionGraph (pipelineStages id tasks)).isOk =
    (env.newExecutionGraph (pipelineStages id' tasks)).isOk

/-- When the graph builder ignores the job id, jobs whose tasks have the same names and
definitions have their graphs built alike. -/
theorem Env.IgnoresJobID.graphBuilds_eq (hI : env.IgnoresJobID) {j j' : PipelineJob}
    (h : j'.tasks.map JobTask.spec = j.tasks.map JobTask.spec) :
    graphBuilds env j' = graphBuilds env j := by
  rw [graphBuilds, graphBuilds, isOk_buildPipelineGraph, isOk_buildPipelineGraph, hI j'.id j.id,
    pipelineStages_eq_of_spec h]

/-! ## A job starts only once its graph is built -/

/-- Every job that has started in `r` had its graph built. -/
def StartedBuilt (env : Env) (r : PipelineRunner) : Prop :=
  ∀ ptr, (r.heap ptr).start.isSome = true → graphBuilds env (r.heap ptr) = true

section StartedBuilt

variable {r r' : PipelineRunner}

theorem StartedBuilt.congr (h : StartedBuilt env r)
    (hs : ∀ x, (r'.heap x).start.isSome = (r.heap x).start.isSome)
    (hg : ∀ x, graphBuilds env (r'.heap x) = graphBuilds env (r.heap x)) : StartedBuilt env r' :=
  fun x hx => (hg x).trans (h x ((hs x).symm.trans hx))

theorem StartedBuilt.of_heap (h : StartedBuilt env r) (hh : r'.heap = r.heap) : StartedBuilt env r' :=
  h.congr (fun _ => by rw [hh]) fun _ => by rw [hh]

/-- A write that keeps a job's start, its id, and the names and definitions of its tasks keeps
the invariant. -/
theorem StartedBuilt.modifyJob (h : StartedBuilt env r) {ptr : JobPtr} {f : PipelineJob → PipelineJob}
    (hf : ∀ j, (f j).start = j.start ∧ (f j).id = j.id ∧
      (f j).tasks.map JobTask.spec = j.tasks.map JobTask.spec) :
    StartedBuilt env (r.modifyJob ptr f) :=
  h.congr (PipelineRunner.modifyJob_heap_of r ptr (·.start.isSome) fun j => congrArg _ (hf j).1)
    (PipelineRunner.modifyJob_heap_of r ptr (graphBuilds env) fun j => graphBuilds_congr (hf j).2.1 (hf j).2.2)

theorem StartedBuilt.startJobOk (h : StartedBuilt env r) {ptr : JobPtr}
    (hb : graphBuilds env (r.heap ptr) = true) : StartedBuilt env (startJobOk now ptr r) :=
  fun x hx => by
    by_cases hxp : x = ptr
    · subst x; simpa using hb
    · rw [startJobOk_heap_ne hxp] at hx ⊢; exact h x hx

theorem StartedBuilt.register (h : StartedBuilt env r) {j : PipelineJob} (hj : j.start = none) :
    StartedBuilt env (r.register j) := fun x hx => by
  by_cases hxn : x = r.next
  · subst x; simp [hj] at hx
  · rw [PipelineRunner.register_heap_ne _ hxn] at hx ⊢; exact h x hx

/-- The drain keeps the invariant: it starts a job only once its graph is built. -/
theorem drainKeeps_startedBuilt :
    DrainKeeps env fun r r' => StartedBuilt env r → StartedBuilt env r' :=
  ⟨fun _ => id, fun h h' hs => h' (h hs), fun _ _ _ hb hs => hs.startJobOk hb,
    fun _ _ _ hs => hs.modifyJob fun _ => ⟨rfl, rfl, rfl⟩, fun _ _ _ hs => hs.of_heap rfl,
    fun _ hs => hs.of_heap rfl⟩

theorem StartedBuilt.scheduleAsync {fuel : Nat} {p : String} {opts : ScheduleOpts}
    {newV4 : Except Error UUID} {res : Except Error JobPtr} (h : StartedBuilt env r)
    (hs : Prunner.scheduleAsync env now fuel p opts newV4 r = some (res, r')) : StartedBuilt env r' := by
  rcases scheduleAsync_cases hs with rfl | ⟨j, -, -, ⟨hj, -, -⟩, ⟨-, rfl⟩ | ⟨-, rfl⟩ | ⟨-, r2, h2, rfl⟩⟩
  · exact h
  · exact (h.register hj).of_heap rfl
  · exact ((h.register hj).modifyJob (f := fun j => { j with canceled := true })
      fun _ => ⟨rfl, rfl, rfl⟩).of_heap rfl
  · exact (drainKeeps_startedBuilt.startJobWith (drainKeeps_startedBuilt.startJobsOnWaitList fuel) h2
      (h.register hj)).of_heap rfl

theorem StartedBuilt.finishExecution {fuel i : Nat} {lastErr : Option Error} (h : StartedBuilt env r)
    (hf : Prunner.finishExecution env now fuel i lastErr r = some r') : StartedBuilt env r' := by
  unfold Prunner.finishExecution jobCompleted at hf
  dsimp only at hf
  split at hf
  · cases hf; exact h.of_heap rfl
  · obtain ⟨r2, h2, rfl⟩ := Option.map_eq_some'.1 hf
    refine (drainKeeps_startedBuilt.startJobsOnWaitList fuel _ _ _ h2 ?_).of_heap rfl
    exact StartedBuilt.modifyJob (by exact h.of_heap rfl) fun _ => ⟨rfl, rfl, rfl⟩

/-- A callback's write keeps the invariant when its change keeps the name and definition of the
task. -/
theorem StartedBuilt.taskWrite {id : UUID} {name : String} {u : JobTask → JobTask}
    (hu : ∀ jt, (u jt).spec = jt.spec) (h : StartedBuilt env r) :
    StartedBuilt env (taskWrite id name u r r) := by
  rcases taskWrite_cases id name u r with ⟨hw, -⟩ | ⟨ptr, i, -, -, hw⟩ <;> rw [hw]
  · exact h
  · exact (h.modifyJob (f := fun j => { j with tasks := j.tasks.modify u i })
      fun j => ⟨rfl, rfl, map_modify_of hu i j.tasks⟩).of_heap rfl

end StartedBuilt

/-- In every reachable state every job that has started had its graph built. -/
theorem Reachable.startedBuilt {r : PipelineRunner} (hr : Reachable env r) : StartedBuilt env r := by
  induction hr with
  | empty => exact fun _ h => absurd h (by simp [PipelineRunner.empty, default])
  | step _ hs ih =>
    cases hs with
    | scheduleAsync now fuel p opts newV4 _ h => exact ih.scheduleAsync h
    | jobCompleted now fuel i lastErr job _ h => exact ih.finishExecution h
    | handleTaskChange t =>
      exact handleTaskChange_eq_taskWrite t _ ▸ ih.taskWrite (u := t.update) fun _ => rfl
    | handleStageChange s =>
      exact handleStageChange_eq_taskWrite s _ ▸ ih.taskWrite (u := s.update) fun _ => rfl

/-- When the graph builder ignores the job id, in every reachable state the waiting jobs of a
pipeline with a slot have their graphs built: the pipeline is full, so one of its jobs runs; that
job's graph was built when it started; and every job of the pipeline has the same tasks. -/
theorem Reachable.graphBuilds_of_waiting {r : PipelineRunner} (hr : Reachable env r)
    (hI : env.IgnoresJobID) {p : String} (hC : 0 < (env.pipelineDef p).concurrency) {ptr : JobPtr}
    (hptr : ptr ∈ r.waitListByPipeline.slice p) : graphBuilds env (r.heap ptr) = true := by
  have hw := hr.wf
  have hfull := hw.full p (List.ne_nil_of_mem hptr)
  obtain ⟨x, hx, hrun⟩ := List.countP_pos_iff.1 (show 0 < runningJobsCount r p by omega)
  obtain ⟨hxn, hxp⟩ := hw.core.toIndexed.mem_jobsByPipeline.1 hx
  obtain ⟨hpn, hpp, -⟩ := hw.core.waiting p ptr hptr
  have hsame : (r.heap ptr).tasks.map JobTask.spec = (r.heap x).tasks.map JobTask.spec := by
    rw [hr.taskSpecs ptr hpn, hr.taskSpecs x hxn, hpp, hxp]
  rw [hI.graphBuilds_eq hsame]
  exact hr.startedBuilt x ((PipelineJob.isRunning_iff _).1 hrun).1

/-! ## Every operation returns -/

/-- `startJob` returns when no job waits for its job's pipeline: when the graph cannot be built,
the drain it re-enters stops at once. -/
theorem startJob_returns {r : PipelineRunner} {ptr : JobPtr} (fuel : Nat)
    (hW : r.waitListByPipeline.slice (r.heap ptr).pipeline = []) :
    ∃ r', startJob env now (fuel + 1) ptr r = some r' := by
  cases hb : graphBuilds env (r.heap ptr) with
  | true => exact ⟨_, startJobWith_of_builds hb⟩
  | false =>
    obtain ⟨err, he⟩ := startJobWith_of_fails now (startJobsOnWaitList env now (fuel + 1)) hb
    have hd := @Drains.stop env now (r.heap ptr).pipeline (r.modifyJob ptr (cancelWith err))
      (.inl (by simpa using hW))
    exact ⟨_, by rw [startJob, he, startJobsOnWaitList_of_drains hd fuel]; rfl⟩

/-- `ScheduleAsync` returns from every state that keeps the invariant: it starts a job only when
no job waits for the pipeline. -/
theorem WF.scheduleAsync_returns {r : PipelineRunner} (hw : WF env r) (now : Time) (fuel : Nat)
    (p : String) (opts : ScheduleOpts) (newV4 : Except Error UUID) :
    ∃ res r', Prunner.scheduleAsync env now (fuel + 1) p opts newV4 r = some (res, r') := by
  unfold Prunner.scheduleAsync
  split
  · exact ⟨_, _, rfl⟩
  dsimp only
  split_ifs with h1 h2
  · exact ⟨_, _, rfl⟩
  · exact ⟨_, _, rfl⟩
  cases newV4 with
  | error => exact ⟨_, _, rfl⟩
  | ok id =>
    dsimp only
    split
    · exact ⟨_, _, rfl⟩
    · exact ⟨_, _, rfl⟩
    have hact : resolveScheduleAction env r p = .start := by
      cases h : resolveScheduleAction env r p <;> simp_all
    have hW : r.waitListByPipeline.slice p = [] := by
      by_contra hne
      have := hw.full p hne
      have := resolveScheduleAction_eq_start.1 hact
      omega
    refine (startJob_returns fuel ?_).elim fun r2 h2 => ⟨_, _, by rw [h2]; rfl⟩
    simpa using hW

/-- When the graph builder ignores the job id, the completion of a job returns from every
reachable state: every job its drain may pop has its graph built. -/
theorem Reachable.finishExecution_returns {r : PipelineRunner} (hr : Reachable env r)
    (hI : env.IgnoresJobID) {i : Nat} {a : JobPtr} (hi : r.executions[i]? = some ⟨a, false⟩)
    (now : Time) (fuel : Nat) (lastErr : Option Error) :
    ∃ r', Prunner.finishExecution env now (fuel + 1) i lastErr r = some r' := by
  have hw := hr.wf
  have hc1 : Core env (completeAt now i a lastErr r) :=
    hw.core.complete hi fun _ => ⟨rfl, rfl, rfl, rfl, rfl⟩
  have hstart := (hw.core.running_of_execution hi).2.1
  obtain ⟨r', hd⟩ := @drains_exists_of_builds env now (r.heap a).pipeline _
    ((hc1.sorted _).imp Nat.ne_of_lt) fun hC b hb => by
      -- a job that waits is not the running `a`
      rw [completeAt_waitListByPipeline] at hb
      have hba : b ≠ a := fun h => by
        subst h; simp [(hw.core.waiting _ b hb).2.2.1] at hstart
      rw [completeAt_heap_ne hba]
      exact hr.graphBuilds_of_waiting hI hC hb
  exact ⟨_, by rw [hw.core.finishExecution_eq_map hi, startJobsOnWaitList_of_drains hd fuel]; rfl⟩

/-- When the graph builder ignores the job id, as Go's does, the runner's operations return from
every reachable state, with any fuel above zero: `ScheduleAsync` of any pipeline, with any outcome
of `uuid.NewV4`, and `jobCompleted` for every execution that has not returned. -/
theorem runner_operations_return {r : PipelineRunner} (hr : Reachable env r)
    (hI : env.IgnoresJobID) (now : Time) (fuel : Nat) :
    (∀ p opts newV4, ∃ res r', scheduleAsync env now (fuel + 1) p opts newV4 r = some (res, r')) ∧
      ∀ i a lastErr, r.executions[i]? = some ⟨a, false⟩ →
        ∃ r', finishExecution env now (fuel + 1) i lastErr r = some r' :=
  ⟨hr.wf.scheduleAsync_returns now fuel, fun _ _ lastErr hi => hr.finishExecution_returns hI hi now fuel lastErr⟩

/-- After one `ScheduleAsync("build")` in `buildEnv`, the completion of job 0 returns. -/
theorem runner_operations_return_build :
    ∃ r, Reachable buildEnv r ∧ r.executions[0]? = some ⟨0, false⟩ ∧
      ∃ r', finishExecution buildEnv 1 1 0 none r = some r' := by
  have h1 : Reachable buildEnv _ := .step .empty (Step.scheduleAsync 0 1 "build" ⟨""⟩ (.ok 0)
    (fun _ _ ptr h => absurd h (Nat.not_lt_zero _)) rfl)
  exact ⟨_, h1, by decide, (runner_operations_return h1 (fun _ _ _ => rfl) 1 0).2 0 0 none (by decide)⟩

/-! ## Restarting -/

end Prunner

/-
The read side of the runner: `ListPipelines`, with `isRunning` and `isSchedulable` for each
defined pipeline, and `ListJobs` with `jobToResult`. `range r.defs.Pipelines` visits the pipelines in any order and `sort.Slice` is
not stable, but an entry is determined by its name, so every order Go may take gives one result.
In every reachable state `Running` tells whether a job of the pipeline runs, and `Schedulable`
tells exactly whether `ScheduleAsync` would return a job: when it is false `ScheduleAsync` fails
with `errNoQueue` or `errQueueFull` and changes nothing, and when it is true `ScheduleAsync` with a
drawn id returns the new job. `ListJobs` sorts with a `less` that is no strict weak order, so its
order is left to `sort.Slice`; but whatever that order, it lists every job ever scheduled once,
and a pipeline is `Running` exactly when it lists a running job of the pipeline.
-/
import Prunner.Runner.Reachable
import Prunner.Tasks.Orders
import Prunner.Store.Persist

namespace Prunner

variable (env : Env)

/-- `pipelineResult`. -/
structure PipelineResult where
  pipeline : String
  schedulable : Bool
  running : Bool
  deriving DecidableEq, Repr

/-- `isRunning(pipeline)`: some job of the pipeline runs. -/
def isRunning (r : PipelineRunner) (pipeline : String) : Bool :=
  (r.jobsByPipeline.slice pipeline).any fun ptr => (r.heap ptr).isRunning

/-- `isSchedulable(pipeline)`: the actions whose cases fall through to `return true`. -/
def isSchedulable (r : PipelineRunner) (pipeline : String) : Bool :=
  match resolveScheduleAction env r pipeline with
  | .replace | .queue | .start => true
  | .noQueue | .queueFull => false

/-- The entry the loop of `ListPipelines` appends for `pipeline`. -/
def pipelineResultOf (r : PipelineRunner) (pipeline : String) : PipelineResult :=
  { pipeline, schedulable := isSchedulable env r pipeline, running := isRunning r pipeline }

/-- `ListPipelines()`, with `range r.defs.Pipelines` in the order of the keys, and `sort.Slice` by
name as an insertion sort. -/
def listPipelines (r : PipelineRunner) : List PipelineResult :=
  (env.pipelines.keys.map (pipelineResultOf env r)).insertionSort
    fun a b => a.pipeline ≤ b.pipeline

/-- What `ListPipelines` may return as Go runs it: `range` visits the pipelines in any order, and
`sort.Slice` leaves a permutation in which no entry is `less` than one before it. -/
def ListPipelinesRun (r : PipelineRunner) (out : List PipelineResult) : Prop :=
  ∃ keys : List String, keys.Perm env.pipelines.keys ∧ out.Perm (keys.map (pipelineResultOf env r)) ∧
    out.Pairwise fun a b => ¬ b.pipeline < a.pipeline

variable {env}

/-! ## The flags -/

/-- `isRunning` is the count of running jobs above zero. -/
theorem isRunning_eq (r : PipelineRunner) (pipeline : String) :
    isRunning r pipeline = decide (0 < runningJobsCount r pipeline) := by
  simp [isRunning, runningJobsCount, List.any_eq]

section Schedule

variable {r : PipelineRunner} {p : String} {pd : PipelineDef}

/-- `startJob` returns when no job waits for the job's pipeline: a graph that cannot be built
cancels the job and drains an empty wait list. -/
theorem startJob_isSome {now : Time} {fuel : Nat} {ptr : JobPtr}
    (hW : r.waitListByPipeline.slice (r.heap ptr).pipeline = []) :
    (startJob env now (fuel + 1) ptr r).isSome := by
  unfold startJob
  cases hb : graphBuilds env (r.heap ptr) with
  | true => rw [startJobWith_of_builds hb]; rfl
  | false =>
    obtain ⟨err, he⟩ := startJobWith_of_fails now (startJobsOnWaitList env now (fuel + 1)) hb
    rw [he, startJobsOnWaitList_of_drains (.stop (.inl (by simpa using hW))) fuel]
    rfl

/-- Not schedulable: `ScheduleAsync` fails with the error of the action, and changes nothing. -/
theorem scheduleAsync_of_not_schedulable (hp : env.pipelines.lookup p = some pd)
    (hs : isSchedulable env r p = false) (now : Time) (fuel : Nat) (opts : ScheduleOpts)
    (newV4 : Except Error UUID) :
    scheduleAsync env now fuel p opts newV4 r = some (.error errNoQueue, r) ∨
      scheduleAsync env now fuel p opts newV4 r = some (.error errQueueFull, r) := by
  cases hact : resolveScheduleAction env r p <;> simp [isSchedulable, hact] at hs
  · exact .inl (by simp [scheduleAsync, hp, hact])
  · exact .inr (by simp [scheduleAsync, hp, hact])

/-- Schedulable, in a state that keeps the invariant: `ScheduleAsync` with a drawn id returns
the new job. A start finds the wait list empty, so it returns even when the graph cannot be
built. -/
theorem scheduleAsync_of_schedulable (hw : WF env r) (hp : env.pipelines.lookup p = some pd)
    (hs : isSchedulable env r p = true) (now : Time) (fuel : Nat) (opts : ScheduleOpts)
    (id : UUID) : ∃ r', scheduleAsync env now (fuel + 1) p opts (.ok id) r = some (.ok r.next, r') := by
  cases hact : resolveScheduleAction env r p <;> simp [isSchedulable, hact] at hs
  · have hW : r.waitListByPipeline.slice p = [] := by
      by_contra hne
      have := resolveScheduleAction_eq_start.1 hact
      have := hw.full p hne
      omega
    obtain ⟨r2, h2⟩ := Option.isSome_iff_exists.1 (@startJob_isSome env (r.register
        { id, pipeline := p, created := now, user := opts.user, tasks := buildJobTasks pd.tasks })
      now fuel r.next (by simpa using hW))
    exact ⟨_, by simp only [scheduleAsync, hp, hact, h2]; rfl⟩
  · exact ⟨_, by simp only [scheduleAsync, hp, hact]; rfl⟩
  · exact ⟨_, by simp only [scheduleAsync, hp, hact]; rfl⟩

end Schedule

/-! ## `ListPipelines` -/

instance : IsTotal PipelineResult fun a b => a.pipeline ≤ b.pipeline :=
  ⟨fun a b => le_total a.pipeline b.pipeline⟩

instance : IsTrans PipelineResult fun a b => a.pipeline ≤ b.pipeline :=
  ⟨fun _ _ _ => le_trans⟩

section List

variable (r : PipelineRunner)

theorem map_pipeline_pipelineResultOf (keys : List String) :
    (keys.map (pipelineResultOf env r)).map (·.pipeline) = keys := by
  rw [List.map_map]; exact List.map_id' keys

/-- The model's order is one of those Go may take. -/
theorem listPipelinesRun_listPipelines : ListPipelinesRun env r (listPipelines env r) :=
  ⟨_, .refl _, List.perm_insertionSort _ _, (List.sorted_insertionSort _ _).imp not_lt.2⟩

/-- Every order Go may take gives the model's result: an entry is determined by its name. -/
theorem eq_listPipelines_of_run {out : List PipelineResult} (h : ListPipelinesRun env r out) :
    out = listPipelines env r := by
  obtain ⟨keys, hk, hp, hs⟩ := h
  refine eq_of_perm_of_pairwise (hp.trans ((hk.map _).trans (List.perm_insertionSort _ _).symm)) hs
    ((List.sorted_insertionSort _ _).imp not_lt.2) fun a ha b hb hab hba => ?_
  obtain ⟨ka, -, rfl⟩ := List.mem_map.1 (hp.subset ha)
  obtain ⟨kb, -, rfl⟩ := List.mem_map.1 (hp.subset hb)
  have hk : ka = kb := le_antisymm (not_lt.1 hab) (not_lt.1 hba)
  rw [hk]

theorem map_pipeline_listPipelines_perm :
    ((listPipelines env r).map (·.pipeline)).Perm env.pipelines.keys :=
  ((List.perm_insertionSort _ _).map _).trans (.of_eq (map_pipeline_pipelineResultOf r _))

theorem sorted_map_pipeline_listPipelines :
    ((listPipelines env r).map (·.pipeline)).Sorted (· < ·) :=
  List.Sorted.lt_of_le (List.pairwise_map.2 (List.sorted_insertionSort _ _))
    ((map_pipeline_listPipelines_perm r).nodup_iff.2 env.pipelines.keys_nodup)

/-- An entry of `ListPipelines` is the entry of a defined pipeline. -/
theorem exists_of_mem_listPipelines {e : PipelineResult} (he : e ∈ listPipelines env r) :
    ∃ pd, env.pipelines.lookup e.pipeline = some pd ∧ e = pipelineResultOf env r e.pipeline := by
  obtain ⟨k, hk, rfl⟩ := List.mem_map.1 ((List.perm_insertionSort _ _).subset he)
  exact ⟨_, (Option.isSome_iff_exists.1 (AList.lookup_isSome.2 (AList.mem_keys.1 hk))).choose_spec,
    rfl⟩

end List

/-- In every state reached from the empty runner, `ListPipelines` returns one list whatever orders
Go takes: one entry for each defined pipeline, in increasing order of name. An entry is `Running`
exactly when a job of the pipeline runs, and `Schedulable` exactly when `ScheduleAsync` for the
pipeline would return a job: when it is true, `ScheduleAsync` with a drawn id returns the new job;
when it is false, `ScheduleAsync` fails with `errNoQueue` or `errQueueFull` and changes nothing. -/
theorem listPipelines_agrees_scheduleAsync {r : PipelineRunner} (hr : Reachable env r) :
    ListPipelinesRun env r (listPipelines env r) ∧
      (∀ out, ListPipelinesRun env r out → out = listPipelines env r) ∧
      ((listPipelines env r).map (·.pipeline)).Sorted (· < ·) ∧
      ((listPipelines env r).map (·.pipeline)).Perm env.pipelines.keys ∧
      ∀ e ∈ listPipelines env r,
        (e.running = true ↔ 0 < runningJobsCount r e.pipeline) ∧
        (e.schedulable = true → ∀ now fuel opts id, ∃ r',
          scheduleAsync env now (fuel + 1) e.pipeline opts (.ok id) r = some (.ok r.next, r')) ∧
        (e.schedulable = false → ∀ now fuel opts newV4,
          scheduleAsync env now fuel e.pipeline opts newV4 r = some (.error errNoQueue, r) ∨
            scheduleAsync env now fuel e.pipeline opts newV4 r = some (.error errQueueFull, r)) := by
  refine ⟨listPipelinesRun_listPipelines r, fun _ => eq_listPipelines_of_run r,
    sorted_map_pipeline_listPipelines r, map_pipeline_listPipelines_perm r, fun e he => ?_⟩
  obtain ⟨pd, hp, he⟩ := exists_of_mem_listPipelines r he
  rw [he]
  exact ⟨by simp [pipelineResultOf, isRunning_eq], scheduleAsync_of_schedulable hr.wf hp,
    scheduleAsync_of_not_schedulable hp⟩

/-- After three `ScheduleAsync("build")` in `buildEnv`, `build` runs a job and has two waiting,
and still takes jobs: the queue strategy appends and there is no queue limit. -/
theorem listPipelines_agrees_scheduleAsync_build :
    ∃ r, Reachable buildEnv r ∧ ⟨"build", true, true⟩ ∈ listPipelines buildEnv r ∧
      ∃ r', scheduleAsync buildEnv 3 1 "build" ⟨""⟩ (.ok 3) r = some (.ok 3, r') := by
  have h1 : Reachable buildEnv _ := .step .empty (Step.scheduleAsync 0 1 "build" ⟨""⟩ (.ok 0)
    (fun _ _ ptr h => absurd h (Nat.not_lt_zero _)) rfl)
  have h2 := h1.step (Step.scheduleAsync 1 1 "build" ⟨""⟩ (.ok 1)
    (fun _ hid => by cases hid; decide) rfl)
  have h3 := h2.step (Step.scheduleAsync 2 1 "build" ⟨""⟩ (.ok 2)
    (fun _ hid => by cases hid; decide) rfl)
  obtain ⟨-, -, -, -, he⟩ := listPipelines_agrees_scheduleAsync h3
  refine ⟨_, h3, ?hm, (he _ ?hm).2.1 rfl 3 0 ⟨""⟩ 3⟩
  exact (List.perm_insertionSort _ _).mem_iff.2 (by decide)

/-! ## `ListJobs` -/

/-- `taskResult`. -/
structure TaskResult where
  name : String
  status : String
  start : Option Time
  «end» : Option Time
  skipped : Bool
  exitCode : Int16
  errored : Bool
  error : Option String
  deriving DecidableEq, Repr

/-- `pipelineJobResult`. -/
structure PipelineJobResult where
  id : UUID
  pipeline : String
  tasks : List TaskResult
  completed : Bool
  canceled : Bool
  errored : Bool
  created : Time
  start : Option Time
  «end» : Option Time
  user : String
  lastError : Option String
  deriving DecidableEq, Repr

/-- `jobToResult`: the job's fields and its tasks', with `Errored` set when a task errored. -/
def jobToResult (j : PipelineJob) : PipelineJobResult :=
  { tasks := j.tasks.map fun t =>
      { name := t.name, status := t.status, start := t.start, «end» := t.«end»,
        skipped := t.skipped, exitCode := t.exitCode, errored := t.errored,
        error := errToStrPtr t.error }
    id := j.id
    pipeline := j.pipeline
    completed := j.completed
    canceled := j.canceled
    errored := j.tasks.foldl (fun errored t => errored || t.errored) false
    created := j.created
    start := j.start
    «end» := j.«end»
    user := j.user
    lastError := errToStrPtr j.lastError }

/-- `ListJobs()` before its sort: `range r.jobsByID` in the order of the entries. -/
def listJobs (r : PipelineRunner) : List PipelineJobResult :=
  r.jobsByID.entries.map fun e => jobToResult (r.heap e.2)

/-- What `ListJobs` may return as Go runs it. `range` visits the jobs in any order, and
`sort.Slice` with the `less` `!Before`, which is no strict weak order, leaves an order that only
its implementation decides: a permutation. -/
def ListJobsRun (r : PipelineRunner) (out : List PipelineJobResult) : Prop :=
  out.Perm (listJobs r)

section Jobs

variable {r : PipelineRunner}

/-- `range r.jobsByID` visits every job once. -/
theorem Indexed.jobsByID_perm_range (hc : Indexed r) :
    (r.jobsByID.entries.map (·.2)).Perm (List.range r.next) := by
  have hid : ∀ e ∈ r.jobsByID.entries, e.2 < r.next ∧ (r.heap e.2).id = e.1 := fun e he =>
    (hc.byID e.1 e.2).1 (AList.mem_lookup_iff.2 he)
  refine (List.perm_ext_iff_of_nodup ?_ (List.nodup_range _)).2 fun ptr => ?_
  · refine List.Nodup.map_on (fun e he e' he' h => ?_) r.jobsByID.nodupKeys.nodup
    have hk : e.1 = e'.1 := by rw [← (hid e he).2, ← (hid e' he').2, h]
    exact Sigma.ext hk (heq_of_eq h)
  · simp only [List.mem_map, List.mem_range]
    exact ⟨fun ⟨e, he, h⟩ => h ▸ (hid e he).1,
      fun hp => ⟨⟨_, ptr⟩, AList.mem_lookup_iff.1 ((hc.byID _ ptr).2 ⟨hp, rfl⟩), rfl⟩⟩

theorem Indexed.listJobs_perm (hc : Indexed r) :
    (listJobs r).Perm ((List.range r.next).map fun ptr => jobToResult (r.heap ptr)) := by
  have h := hc.jobsByID_perm_range.map fun ptr => jobToResult (r.heap ptr)
  rwa [List.map_map] at h

theorem Indexed.map_id_listJobs (hc : Indexed r) : (listJobs r).map (·.id) = r.jobsByID.keys := by
  simp only [listJobs, List.map_map, AList.keys, List.keys]
  exact List.map_congr_left fun e he => ((hc.byID e.1 e.2).1 (AList.mem_lookup_iff.2 he)).2

/-- A pipeline runs exactly when `ListJobs` lists a running job of it. -/
theorem Indexed.isRunning_iff_listJobs (hc : Indexed r) {out : List PipelineJobResult}
    (ho : ListJobsRun r out) (p : String) :
    isRunning r p = true ↔
      ∃ jr ∈ out, jr.pipeline = p ∧ (jr.start.isSome && !jr.completed && !jr.canceled) = true := by
  simp only [isRunning, hc.byPipeline, (ho.trans hc.listJobs_perm).mem_iff, List.any_eq_true,
    List.mem_filter, List.mem_range, decide_eq_true_eq, List.mem_map, exists_exists_and_eq_and]
  simp [jobToResult, PipelineJob.isRunning, and_assoc]

end Jobs

/-- In every state reached from the empty runner, whatever order `range` and `sort.Slice` take,
`ListJobs` lists the result of every job ever scheduled exactly once, with pairwise distinct ids.
It agrees with `ListPipelines`: a pipeline is `Running` exactly when `ListJobs` lists a job of it
that has started and is neither completed nor canceled. -/
theorem listJobs_lists_every_job {r : PipelineRunner} (hr : Reachable env r)
    {out : List PipelineJobResult} (ho : ListJobsRun r out) :
    out.Perm ((List.range r.next).map fun ptr => jobToResult (r.heap ptr)) ∧
      (out.map (·.id)).Nodup ∧
      ∀ e ∈ listPipelines env r, e.running = true ↔
        ∃ jr ∈ out, jr.pipeline = e.pipeline ∧
          (jr.start.isSome && !jr.completed && !jr.canceled) = true := by
  have hc := hr.wf.core.toIndexed
  refine ⟨ho.trans hc.listJobs_perm, ?_, fun e he => ?_⟩
  · rw [(ho.map _).nodup_iff, hc.map_id_listJobs]
    exact r.jobsByID.keys_nodup
  · obtain ⟨-, -, he⟩ := exists_of_mem_listPipelines r he
    rw [he]
    exact hc.isRunning_iff_listJobs ho _

/-- After three `ScheduleAsync("build")` in `buildEnv`, `ListJobs` lists three jobs, one of them
running. -/
theorem listJobs_lists_every_job_build :
    ∃ r, Reachable buildEnv r ∧ (listJobs r).length = 3 ∧
      ∃ jr ∈ listJobs r, jr.pipeline = "build" ∧
        (jr.start.isSome && !jr.completed && !jr.canceled) = true := by
  have h1 : Reachable buildEnv _ := .step .empty (Step.scheduleAsync 0 1 "build" ⟨""⟩ (.ok 0)
    (fun _ _ ptr h => absurd h (Nat.not_lt_zero _)) rfl)
  have h2 := h1.step (Step.scheduleAsync 1 1 "build" ⟨""⟩ (.ok 1)
    (fun _ hid => by cases hid; decide) rfl)
  have h3 := h2.step (Step.scheduleAsync 2 1 "build" ⟨""⟩ (.ok 2)
    (fun _ hid => by cases hid; decide) rfl)
  obtain ⟨hp, -, hrun⟩ := listJobs_lists_every_job h3 (List.Perm.refl _)
  refine ⟨_, h3, by rw [hp.length_eq]; rfl, (hrun ⟨"build", true, true⟩ ?_).1 rfl⟩
  exact (List.perm_insertionSort _ _).mem_iff.2 (by decide)

end Prunner

/-
The snapshot of the data store and the two directions of the runner's persistence:
`saveToStore` builds a snapshot of the runner's jobs and wait lists, and `initialLoadFromStore`
rebuilds a runner from a loaded snapshot, cancels the jobs that were running when it was taken,
restores the wait lists, and drains each of them.
-/
import Prunner.Runner.Ops

namespace Prunner

/-! ## The snapshot -/

/-- Modelled from the spec: `persistedTask`, declared outside src/, with the fields
`saveToStore` writes and `buildJobFromPersistedJob` reads. -/
structure PersistedTask where
  name : String
  script : List String
  dependsOn : List String
  allowFailure : Bool
  status : String
  start : Option Time
  «end» : Option Time
  skipped : Bool
  exitCode : Int16
  errored : Bool
  error : Option String
  deriving DecidableEq, Repr

/-- Modelled from the spec: `persistedJob`, declared outside src/, with the fields `saveToStore`
writes and `buildJobFromPersistedJob` reads. -/
structure PersistedJob where
  id : UUID
  pipeline : String
  completed : Bool
  canceled : Bool
  created : Time
  start : Option Time
  «end» : Option Time
  user : String
  tasks : List PersistedTask
  deriving DecidableEq, Repr

/-- Modelled from the spec: `persistedData`, declared outside src/: the jobs, and the wait lists
by pipeline as job ids. -/
structure PersistedData where
  jobs : List PersistedJob
  waitLists : GoMap String (List UUID)

/-- `errToStrPtr`. -/
def errToStrPtr : Option Error → Option String
  | some err => some err
  | none => none

/-- `strPtrToErr`: no error for `nil` and for the empty message. -/
def strPtrToErr : Option String → Option Error
  | none => none
  | some s => if s = "" then none else some s

/-! ## Saving -/

/-- The `persistedTask` that `saveToStore` writes for a task of a job. -/
def persistTask (t : JobTask) : PersistedTask :=
  { name := t.name, script := t.script, dependsOn := t.dependsOn, allowFailure := t.allowFailure,
    status := t.status, start := t.start, «end» := t.«end», skipped := t.skipped,
    exitCode := t.exitCode, errored := t.errored, error := errToStrPtr t.error }

/-- The `persistedJob` that `saveToStore` writes for a job. -/
def persistJob (job : PipelineJob) : PersistedJob :=
  { id := job.id, pipeline := job.pipeline, completed := job.completed, canceled := job.canceled,
    created := job.created, start := job.start, «end» := job.«end», user := job.user,
    tasks := job.tasks.map persistTask }

/-- `saveToStore`: the snapshot it hands to `Save`, the jobs in the order `range r.jobsByID`
visits them. -/
def saveToStore (r : PipelineRunner) : PersistedData :=
  { jobs := r.jobsByID.entries.map fun e => persistJob (r.heap e.2)
    waitLists := (r.waitListByPipeline.entries.map fun e =>
      (⟨e.1, e.2.map fun job => (r.heap job).id⟩ : Σ _ : String, List UUID)).toAList }

/-- Two snapshots that agree but for the order of their jobs. -/
def PersistedData.Equiv (d d' : PersistedData) : Prop :=
  d.jobs.Perm d'.jobs ∧ ∀ p, d.waitLists.lookup p = d'.waitLists.lookup p

/-! ## Loading -/

/-- `buildJobFromPersistedJob`. -/
def buildJobFromPersistedJob (pJob : PersistedJob) : PipelineJob :=
  { id := pJob.id, pipeline := pJob.pipeline, completed := pJob.completed, canceled := pJob.canceled,
    created := pJob.created, start := pJob.start, «end» := pJob.«end», user := pJob.user,
    tasks := pJob.tasks.map fun t =>
      { name := t.name, script := t.script, dependsOn := t.dependsOn, allowFailure := t.allowFailure,
        status := t.status, start := t.start, «end» := t.«end», skipped := t.skipped,
        exitCode := t.exitCode, errored := t.errored, error := strPtrToErr t.error } }

/-! ## The round trip of a job -/

/-- An error survives `errToStrPtr` then `strPtrToErr`, unless its message is empty. -/
theorem strPtrToErr_errToStrPtr {e : Option Error} (h : e ≠ some "") :
    strPtrToErr (errToStrPtr e) = e := by
  cases e with
  | none => rfl
  | some s => exact if_neg fun hs => h (congrArg some hs)

/-- A job saved as `saveToStore` does and read back by `buildJobFromPersistedJob`, when no task
has an error with an empty message: the same job, but `LastError`, which the snapshot does not
hold, is lost. -/
theorem buildJobFromPersistedJob_persistJob (j : PipelineJob)
    (h : ∀ t ∈ j.tasks, t.error ≠ some "") :
    buildJobFromPersistedJob (persistJob j) = { j with lastError := none } := by
  simp only [buildJobFromPersistedJob, persistJob, List.map_map]
  congr 1
  conv_rhs => rw [← List.map_id j.tasks]
  exact List.map_congr_left fun t ht => by
    simp only [Function.comp_apply, persistTask, strPtrToErr_errToStrPtr (h t ht), id]

/-- A job of pipeline `build` that failed, with its one task. -/
def failedJob : PipelineJob where
  id := 0
  pipeline := "build"
  completed := true
  created := 0
  start := some 0
  «end» := some 1
  user := ""
  lastError := some "exit status 1"
  tasks :=
    [{ script := ["false"], dependsOn := [], allowFailure := false, name := "test",
       status := "error", exitCode := 1, errored := true, error := some "exit status 1" }]

theorem buildJobFromPersistedJob_failedJob :
    buildJobFromPersistedJob (persistJob failedJob) = { failedJob with lastError := none } ∧
      failedJob.lastError = some "exit status 1" :=
  ⟨buildJobFromPersistedJob_persistJob failedJob (by simp [failedJob]), rfl⟩

/-- A task of a job found running: `waiting` and `running` become `canceled`. -/
def cancelTask (jt : JobTask) : JobTask :=
  if jt.status = "waiting" ∨ jt.status = "running" then { jt with status := "canceled" } else jt

/-- The job `initialLoadFromStore` restores from a persisted one: a job that appears to be still
running is canceled with its waiting and running tasks. -/
def restoreJob (pJob : PersistedJob) : PipelineJob :=
  let job := buildJobFromPersistedJob pJob
  if job.isRunning then { job with tasks := job.tasks.map cancelTask, canceled := true } else job

/-- The inner loop of `initialLoadFromStore` over one persisted wait list: a job found by its id
is appended to the wait list, an unknown id is skipped. -/
def restoreWaitList (pipeline : String) : List UUID → PipelineRunner → PipelineRunner
  | [], r => r
  | jobID :: waitList, r =>
    match r.jobsByID.lookup jobID with
    | none => restoreWaitList pipeline waitList r
    | some job =>
      restoreWaitList pipeline waitList
        (r.setWaitList pipeline (r.waitListByPipeline.slice pipeline ++ [job]))

/-- The first loop of `initialLoadFromStore`: each persisted job rebuilt, canceled if it was
running, and indexed by id and by pipeline. -/
def restoreJobs : List PersistedJob → PipelineRunner → PipelineRunner
  | [], r => r
  | pJob :: jobs, r => restoreJobs jobs (r.register (restoreJob pJob))

variable (env : Env) (now : Time) (fuel : Nat)

/-- The second loop of `initialLoadFromStore`, over the wait lists in the order `range` visits
them: each one restored, then drained by `startJobsOnWaitList`. -/
def restoreWaitLists : List (Σ _ : String, List UUID) → PipelineRunner → Option PipelineRunner
  | [], r => some r
  | ⟨pipeline, waitList⟩ :: rest, r =>
    (startJobsOnWaitList env now fuel pipeline (restoreWaitList pipeline waitList r)).bind
      (restoreWaitLists rest)

/-- `initialLoadFromStore` on the outcome of `r.store.Load()`. -/
def initialLoadFromStore (load : Except Error PersistedData) (r : PipelineRunner) :
    Option (Except Error PipelineRunner) :=
  match load with
  | .error err => some (.error ("loading data: " ++ err))
  | .ok data => (restoreWaitLists env now fuel data.waitLists.entries (restoreJobs data.jobs r)).map .ok

end Prunner

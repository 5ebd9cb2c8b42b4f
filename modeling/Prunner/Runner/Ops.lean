/-
The operations of the runner, each one step under its write lock: `ScheduleAsync`, `startJob`
and `startJobsOnWaitList` (which re-enter each other, so they run on fuel, the depth of
re-entry), `jobCompleted` from a spawned execution, and the callbacks of the task runner and the
scheduler. `Step` is one operation that returns; `Reachable` is every state a run from the empty
runner passes through.
-/
import Prunner.Runner.State
import Prunner.Tasks

namespace Prunner

variable (env : Env) (now : Time)

/-! ## Starting jobs -/

/-- The branch of `startJob` where the graph is built: `job.Start = &now`, the execution
spawned, and the deferred `requestPersist`. -/
def startJobOk (ptr : JobPtr) (r : PipelineRunner) : PipelineRunner :=
  ((r.modifyJob ptr fun j => { j with start := some now }).spawn ptr).requestPersist

/-- `startJob`, with the `startJobsOnWaitList` it re-enters when the graph cannot be built passed
as `drain`. -/
def startJobWith (drain : String → PipelineRunner → Option PipelineRunner) (ptr : JobPtr)
    (r : PipelineRunner) : Option PipelineRunner :=
  let job := r.heap ptr
  match buildPipelineGraph env job.id job.tasks with
  | .error err =>
    (drain job.pipeline (r.modifyJob ptr fun j => { j with lastError := some err, canceled := true })).map
      PipelineRunner.requestPersist
  | .ok _ => some (startJobOk now ptr r)

/-- The loop of `startJobsOnWaitList` over its local copy of the wait list; it returns what is
left of the copy. -/
def startJobsOnWaitListLoop (start : JobPtr → PipelineRunner → Option PipelineRunner)
    (pipeline : String) : List JobPtr → PipelineRunner → Option (List JobPtr × PipelineRunner)
  | [], r => some ([], r)
  | queuedJob :: waitList, r =>
    if resolveScheduleAction env r pipeline = .start then
      (start queuedJob r).bind (startJobsOnWaitListLoop start pipeline waitList)
    else some (queuedJob :: waitList, r)

/-- `startJobsOnWaitList`; `fuel` bounds how deep it re-enters itself through `startJob`. -/
def startJobsOnWaitList : Nat → String → PipelineRunner → Option PipelineRunner
  | 0, _, _ => none
  | fuel + 1, pipeline, r =>
    (startJobsOnWaitListLoop env (startJobWith env now (startJobsOnWaitList fuel)) pipeline
      (r.waitListByPipeline.slice pipeline) r).map fun x => x.2.setWaitList pipeline x.1

/-- `startJob`. -/
def startJob (fuel : Nat) : JobPtr → PipelineRunner → Option PipelineRunner :=
  startJobWith env now (startJobsOnWaitList env now fuel)

/-! ## Scheduling -/

/-- The error of `ScheduleAsync` for an undefined pipeline,
`errors.Errorf("pipeline %q is not defined", pipeline)`. -/
def errUndefinedPipeline (pipeline : String) : Error :=
  "pipeline " ++ quote pipeline ++ " is not defined"

/-- `ScheduleAsync(pipeline, opts)`, with `newV4` the outcome of `uuid.NewV4()`: the new job's
address or an error, and the state after. -/
def scheduleAsync (fuel : Nat) (pipeline : String) (opts : ScheduleOpts)
    (newV4 : Except Error UUID) (r : PipelineRunner) : Option (Except Error JobPtr × PipelineRunner) :=
  match env.pipelines.lookup pipeline with
  | none => some (.error (errUndefinedPipeline pipeline), r)
  | some pipelineDef =>
    let action := resolveScheduleAction env r pipeline
    if action = .noQueue then some (.error errNoQueue, r)
    else if action = .queueFull then some (.error errQueueFull, r)
    else
      match newV4 with
      | .error err => some (.error ("generating job UUID: " ++ err), r)
      | .ok id =>
        let job : PipelineJob :=
          { id, pipeline, created := now, user := opts.user, tasks := buildJobTasks pipelineDef.tasks }
        let ptr := r.next
        let r := r.register job
        match action with
        | .queue =>
          some (.ok ptr, (r.setWaitList pipeline (r.waitListByPipeline.slice pipeline ++ [ptr])).requestPersist)
        | .replace =>
          let waitList := r.waitListByPipeline.slice pipeline
          let previousJob := waitList.getD (waitList.length - 1) 0
          some (.ok ptr, ((r.modifyJob previousJob fun j => { j with canceled := true }).setWaitList
            pipeline (waitList.set (waitList.length - 1) ptr)).requestPersist)
        | _ => (startJob env now fuel ptr r).map fun r => (.ok ptr, r.requestPersist)

/-! ## Completion and callbacks -/

/-- `jobCompleted(id, err)`. -/
def jobCompleted (fuel : Nat) (id : UUID) (err : Option Error) (r : PipelineRunner) :
    Option PipelineRunner :=
  match r.jobsByID.lookup id with
  | none => some r
  | some ptr =>
    let r := r.modifyJob ptr fun j => { j with completed := true, «end» := some now, lastError := err }
    (startJobsOnWaitList env now fuel (r.heap ptr).pipeline r).map PipelineRunner.requestPersist

/-- The goroutine of execution `i` returns from `sched.Schedule` with `lastErr` and calls
`jobCompleted(job.ID, lastErr)`. -/
def finishExecution (fuel : Nat) (i : Nat) (lastErr : Option Error) (r : PipelineRunner) :
    Option PipelineRunner :=
  let e := r.executions.getD i ⟨0, false⟩
  jobCompleted env now fuel (r.heap e.job).id lastErr
    { r with executions := r.executions.set i { e with done := true } }

/-- The fields of a `*task.Task` that `handleTaskChange` reads; `jobID` is its variable `jobID`
as `uuid.FromString` parses it. -/
structure TaskChange where
  jobID : UUID
  name : String
  start : Time
  «end» : Time
  errored : Bool
  error : Option Error
  exitCode : Int16
  skipped : Bool

/-- The fields `handleTaskChange` copies from the task into the job's task; a zero time is
not copied. -/
def TaskChange.update (t : TaskChange) (jt : JobTask) : JobTask :=
  { jt with
    start := if t.start = 0 then jt.start else some t.start
    «end» := if t.«end» = 0 then jt.«end» else some t.«end»
    errored := t.errored
    error := t.error
    exitCode := t.exitCode
    skipped := t.skipped }

/-- `handleTaskChange`. -/
def handleTaskChange (t : TaskChange) (r : PipelineRunner) : PipelineRunner :=
  match r.jobsByID.lookup t.jobID with
  | none => r
  | some ptr =>
    match (r.heap ptr).tasks.byName t.name with
    | none => r
    | some i => (r.modifyJob ptr fun j => { j with tasks := j.tasks.modify t.update i }).requestPersist

/-- The fields of a `*scheduler.Stage` that `handleStageChange` reads. -/
structure StageChange where
  jobID : UUID
  name : String
  status : StageStatus

/-- `jt.Status = toStatus(stage.ReadStatus())`. -/
def StageChange.update (s : StageChange) (jt : JobTask) : JobTask :=
  { jt with status := toStatus s.status }

/-- `handleStageChange`. -/
def handleStageChange (s : StageChange) (r : PipelineRunner) : PipelineRunner :=
  match r.jobsByID.lookup s.jobID with
  | none => r
  | some ptr =>
    match (r.heap ptr).tasks.byName s.name with
    | none => r
    | some i => (r.modifyJob ptr fun j => { j with tasks := j.tasks.modify s.update i }).requestPersist

/-! ## Runs -/

/-- One operation of the runner that returns. `uuid.NewV4` draws an id that no job has; an
execution finishes once. -/
inductive Step : PipelineRunner → PipelineRunner → Prop
  | scheduleAsync {r r' : PipelineRunner} {res : Except Error JobPtr} (now : Time) (fuel : Nat)
      (pipeline : String) (opts : ScheduleOpts) (newV4 : Except Error UUID)
      (fresh : ∀ id, newV4 = .ok id → ∀ ptr < r.next, (r.heap ptr).id ≠ id)
      (h : scheduleAsync env now fuel pipeline opts newV4 r = some (res, r')) : Step r r'
  | jobCompleted {r r' : PipelineRunner} (now : Time) (fuel i : Nat) (lastErr : Option Error)
      (job : JobPtr) (hi : r.executions[i]? = some ⟨job, false⟩)
      (h : finishExecution env now fuel i lastErr r = some r') : Step r r'
  | handleTaskChange (r : PipelineRunner) (t : TaskChange) : Step r (handleTaskChange t r)
  | handleStageChange (r : PipelineRunner) (s : StageChange) : Step r (handleStageChange s r)

/-- The states of runs from the empty runner. -/
inductive Reachable : PipelineRunner → Prop
  | empty : Reachable .empty
  | step {r r' : PipelineRunner} : Reachable r → Step env r r' → Reachable r'

end Prunner

/-
The state of `pipelineRunner` with each `*pipelineJob` a cell of a heap, the goroutines that
`startJob` spawns, and the pure part of admission: `runningJobsCount` and
`resolveScheduleAction`.
-/
import Prunner.Basic
import Mathlib.Logic.Function.Basic

namespace Prunner

/-- A `*pipelineJob`: the address of its heap cell. -/
abbrev JobPtr := Nat

/-- A goroutine that `startJob` spawned for a job; `done` once it has called `jobCompleted`. -/
structure Execution where
  job : JobPtr
  done : Bool
  deriving DecidableEq, Repr

/-- The `pipelineRunner` fields its operations read and write, the heap of its jobs (cells below
`next` are allocated), and the goroutines `startJob` spawned, oldest first. `persistRequests` is
the channel of one slot: `true` when the slot is full. -/
structure PipelineRunner where
  heap : JobPtr → PipelineJob
  next : Nat
  jobsByID : GoMap UUID JobPtr
  jobsByPipeline : GoMap String (List JobPtr)
  waitListByPipeline : GoMap String (List JobPtr)
  persistRequests : Bool
  executions : List Execution

/-- The runner `newPipelineRunner` builds before any job: empty maps and an empty channel. -/
def PipelineRunner.empty : PipelineRunner :=
  ⟨fun _ => default, 0, ∅, ∅, ∅, false, []⟩

/-! ## Heap and channel -/

namespace PipelineRunner

variable (r : PipelineRunner)

/-- `new(pipelineJob)`: the job in a fresh cell. -/
def alloc (j : PipelineJob) : PipelineRunner :=
  { r with heap := Function.update r.heap r.next j, next := r.next + 1 }

/-- `job := &pipelineJob{...}`, then `r.jobsByID[job.ID] = job` and the append to
`r.jobsByPipeline[job.Pipeline]`. -/
def register (j : PipelineJob) : PipelineRunner :=
  { r.alloc j with
    jobsByID := r.jobsByID.insert j.id r.next
    jobsByPipeline := r.jobsByPipeline.insert j.pipeline (r.jobsByPipeline.slice j.pipeline ++ [r.next]) }

/-- Writing fields of the job at `ptr`. -/
def modifyJob (ptr : JobPtr) (f : PipelineJob → PipelineJob) : PipelineRunner :=
  { r with heap := Function.update r.heap ptr (f (r.heap ptr)) }

/-- `r.waitListByPipeline[pipeline] = waitList`. -/
def setWaitList (pipeline : String) (waitList : List JobPtr) : PipelineRunner :=
  { r with waitListByPipeline := r.waitListByPipeline.insert pipeline waitList }

/-- `requestPersist`: a send that does not block; it fills the slot, or finds it full. -/
def requestPersist : PipelineRunner :=
  { r with persistRequests := true }

/-- `go func() { ... }()` in `startJob`. -/
def spawn (ptr : JobPtr) : PipelineRunner :=
  { r with executions := r.executions ++ [⟨ptr, false⟩] }

variable {r}

@[simp] theorem alloc_heap_self (j : PipelineJob) : (r.alloc j).heap r.next = j := by
  simp [alloc]

theorem alloc_heap_of_lt (j : PipelineJob) {ptr : JobPtr} (h : ptr < r.next) :
    (r.alloc j).heap ptr = r.heap ptr := by
  simp [alloc, Function.update_noteq (Nat.ne_of_lt h)]

@[simp] theorem modifyJob_heap_self (ptr : JobPtr) (f : PipelineJob → PipelineJob) :
    (r.modifyJob ptr f).heap ptr = f (r.heap ptr) := by
  simp [modifyJob]

@[simp] theorem modifyJob_heap_ne {ptr q : JobPtr} (f : PipelineJob → PipelineJob) (h : q ≠ ptr) :
    (r.modifyJob ptr f).heap q = r.heap q := by
  simp [modifyJob, Function.update_noteq h]

theorem modifyJob_heap (ptr q : JobPtr) (f : PipelineJob → PipelineJob) :
    (r.modifyJob ptr f).heap q = if q = ptr then f (r.heap ptr) else r.heap q := by
  split
  · subst q; simp
  · simp [*]

/-- A field that the write leaves alone reads the same in every cell. -/
theorem modifyJob_heap_of {β : Type} (r : PipelineRunner) (ptr : JobPtr) (g : PipelineJob → β)
    {f : PipelineJob → PipelineJob}
    (hf : ∀ j, g (f j) = g j) (q : JobPtr) : g ((r.modifyJob ptr f).heap q) = g (r.heap q) := by
  rw [modifyJob_heap]; split
  · subst q; exact hf _
  · rfl

@[simp] theorem alloc_next (j : PipelineJob) : (r.alloc j).next = r.next + 1 := rfl
@[simp] theorem alloc_jobsByID (j : PipelineJob) : (r.alloc j).jobsByID = r.jobsByID := rfl
@[simp] theorem alloc_jobsByPipeline (j : PipelineJob) :
    (r.alloc j).jobsByPipeline = r.jobsByPipeline := rfl
@[simp] theorem alloc_waitListByPipeline (j : PipelineJob) :
    (r.alloc j).waitListByPipeline = r.waitListByPipeline := rfl
@[simp] theorem alloc_persistRequests (j : PipelineJob) :
    (r.alloc j).persistRequests = r.persistRequests := rfl
@[simp] theorem alloc_executions (j : PipelineJob) : (r.alloc j).executions = r.executions := rfl

@[simp] theorem register_heap_self (j : PipelineJob) : (r.register j).heap r.next = j := by
  simp [register, alloc]

theorem register_heap_of_lt (j : PipelineJob) {ptr : JobPtr} (h : ptr < r.next) :
    (r.register j).heap ptr = r.heap ptr :=
  alloc_heap_of_lt j h

theorem register_heap_ne (j : PipelineJob) {ptr : JobPtr} (h : ptr ≠ r.next) :
    (r.register j).heap ptr = r.heap ptr := by
  simp [register, alloc, Function.update_noteq h]

@[simp] theorem register_next (j : PipelineJob) : (r.register j).next = r.next + 1 := rfl
@[simp] theorem register_jobsByID (j : PipelineJob) :
    (r.register j).jobsByID = r.jobsByID.insert j.id r.next := rfl
@[simp] theorem register_jobsByPipeline (j : PipelineJob) :
    (r.register j).jobsByPipeline =
      r.jobsByPipeline.insert j.pipeline (r.jobsByPipeline.slice j.pipeline ++ [r.next]) := rfl
@[simp] theorem register_waitListByPipeline (j : PipelineJob) :
    (r.register j).waitListByPipeline = r.waitListByPipeline := rfl
@[simp] theorem register_persistRequests (j : PipelineJob) :
    (r.register j).persistRequests = r.persistRequests := rfl
@[simp] theorem register_executions (j : PipelineJob) : (r.register j).executions = r.executions := rfl

@[simp] theorem modifyJob_next (ptr : JobPtr) (f : PipelineJob → PipelineJob) :
    (r.modifyJob ptr f).next = r.next := rfl
@[simp] theorem modifyJob_jobsByID (ptr : JobPtr) (f : PipelineJob → PipelineJob) :
    (r.modifyJob ptr f).jobsByID = r.jobsByID := rfl
@[simp] theorem modifyJob_jobsByPipeline (ptr : JobPtr) (f : PipelineJob → PipelineJob) :
    (r.modifyJob ptr f).jobsByPipeline = r.jobsByPipeline := rfl
@[simp] theorem modifyJob_waitListByPipeline (ptr : JobPtr) (f : PipelineJob → PipelineJob) :
    (r.modifyJob ptr f).waitListByPipeline = r.waitListByPipeline := rfl
@[simp] theorem modifyJob_persistRequests (ptr : JobPtr) (f : PipelineJob → PipelineJob) :
    (r.modifyJob ptr f).persistRequests = r.persistRequests := rfl
@[simp] theorem modifyJob_executions (ptr : JobPtr) (f : PipelineJob → PipelineJob) :
    (r.modifyJob ptr f).executions = r.executions := rfl

@[simp] theorem setWaitList_heap (p : String) (l : List JobPtr) : (r.setWaitList p l).heap = r.heap := rfl
@[simp] theorem setWaitList_next (p : String) (l : List JobPtr) : (r.setWaitList p l).next = r.next := rfl
@[simp] theorem setWaitList_jobsByID (p : String) (l : List JobPtr) :
    (r.setWaitList p l).jobsByID = r.jobsByID := rfl
@[simp] theorem setWaitList_jobsByPipeline (p : String) (l : List JobPtr) :
    (r.setWaitList p l).jobsByPipeline = r.jobsByPipeline := rfl
@[simp] theorem setWaitList_waitListByPipeline (p : String) (l : List JobPtr) :
    (r.setWaitList p l).waitListByPipeline = r.waitListByPipeline.insert p l := rfl
@[simp] theorem setWaitList_persistRequests (p : String) (l : List JobPtr) :
    (r.setWaitList p l).persistRequests = r.persistRequests := rfl
@[simp] theorem setWaitList_executions (p : String) (l : List JobPtr) :
    (r.setWaitList p l).executions = r.executions := rfl

theorem modifyJob_setWaitList (ptr : JobPtr) (f : PipelineJob → PipelineJob) (p : String) (l : List JobPtr) :
    (r.setWaitList p l).modifyJob ptr f = (r.modifyJob ptr f).setWaitList p l := rfl

@[simp] theorem requestPersist_heap : r.requestPersist.heap = r.heap := rfl
@[simp] theorem requestPersist_next : r.requestPersist.next = r.next := rfl
@[simp] theorem requestPersist_jobsByID : r.requestPersist.jobsByID = r.jobsByID := rfl
@[simp] theorem requestPersist_jobsByPipeline : r.requestPersist.jobsByPipeline = r.jobsByPipeline := rfl
@[simp] theorem requestPersist_waitListByPipeline :
    r.requestPersist.waitListByPipeline = r.waitListByPipeline := rfl
@[simp] theorem requestPersist_persistRequests : r.requestPersist.persistRequests = true := rfl
@[simp] theorem requestPersist_executions : r.requestPersist.executions = r.executions := rfl

@[simp] theorem spawn_heap (ptr : JobPtr) : (r.spawn ptr).heap = r.heap := rfl
@[simp] theorem spawn_next (ptr : JobPtr) : (r.spawn ptr).next = r.next := rfl
@[simp] theorem spawn_jobsByID (ptr : JobPtr) : (r.spawn ptr).jobsByID = r.jobsByID := rfl
@[simp] theorem spawn_jobsByPipeline (ptr : JobPtr) : (r.spawn ptr).jobsByPipeline = r.jobsByPipeline := rfl
@[simp] theorem spawn_waitListByPipeline (ptr : JobPtr) :
    (r.spawn ptr).waitListByPipeline = r.waitListByPipeline := rfl
@[simp] theorem spawn_persistRequests (ptr : JobPtr) :
    (r.spawn ptr).persistRequests = r.persistRequests := rfl
@[simp] theorem spawn_executions (ptr : JobPtr) :
    (r.spawn ptr).executions = r.executions ++ [⟨ptr, false⟩] := rfl

end PipelineRunner

/-! ## Admission -/

/-- The fields of the `scheduler.Stage` that `buildPipelineGraph` builds for a task: the task of
its commands (`task.FromCommands`), its dependencies, `AllowFailure`, and the injected variable
`jobID`, the job's id as the string that `uuid.FromString` reads back. -/
structure Stage where
  name : String
  script : List String
  dependsOn : List String
  allowFailure : Bool
  jobID : UUID
  deriving DecidableEq, Repr

/-- What a runner is built with and never changes: `r.defs.Pipelines`, and
`scheduler.NewExecutionGraph` (outside src/), which may reject any list of stages. -/
structure Env where
  pipelines : GoMap String PipelineDef
  newExecutionGraph : List Stage → Except Error Unit

variable (env : Env)

/-- `r.defs.Pipelines[pipeline]`. -/
def Env.pipelineDef (pipeline : String) : PipelineDef :=
  (env.pipelines.lookup pipeline).getD default

/-- The stages `buildPipelineGraph` hands to `scheduler.NewExecutionGraph`, one per task. -/
def pipelineStages (id : UUID) (tasks : JobTasks) : List Stage :=
  tasks.map fun t => ⟨t.name, t.script, t.dependsOn, t.allowFailure, id⟩

/-- `buildPipelineGraph`. -/
def buildPipelineGraph (id : UUID) (tasks : JobTasks) : Except Error Unit :=
  match env.newExecutionGraph (pipelineStages id tasks) with
  | .ok g => .ok g
  | .error err => .error ("building execution graph: " ++ err)

/-- `runningJobsCount`. -/
def runningJobsCount (r : PipelineRunner) (pipeline : String) : Nat :=
  (r.jobsByPipeline.slice pipeline).countP fun ptr => (r.heap ptr).isRunning

/-- `resolveScheduleAction`. -/
def resolveScheduleAction (r : PipelineRunner) (pipeline : String) : ScheduleAction :=
  let pipelineDef := env.pipelineDef pipeline
  if pipelineDef.concurrency ≤ runningJobsCount r pipeline then
    if pipelineDef.queueLimit = some 0 then .noQueue
    else
      let waitList := r.waitListByPipeline.slice pipeline
      if pipelineDef.queueStrategy = .replace ∧ 0 < waitList.length then .replace
      else
        match pipelineDef.queueLimit with
        | some limit => if limit ≤ waitList.length then .queueFull else .queue
        | none => .queue
  else .start

variable {env}

theorem resolveScheduleAction_eq_start {r : PipelineRunner} {pipeline : String} :
    resolveScheduleAction env r pipeline = .start ↔
      (runningJobsCount r pipeline : Int) < (env.pipelineDef pipeline).concurrency := by
  unfold resolveScheduleAction
  dsimp only
  split
  · rename_i h
    simp only [Int.not_lt.2 h, iff_false]
    split_ifs <;> (try split) <;> (try split_ifs) <;> simp
  · simp_all

/-- What `Queue` tells of the state: no free slot, room under the queue limit, and no job to
replace. -/
theorem resolveScheduleAction_eq_queue {r : PipelineRunner} {pipeline : String}
    (h : resolveScheduleAction env r pipeline = .queue) :
    (env.pipelineDef pipeline).concurrency ≤ runningJobsCount r pipeline ∧
      ((env.pipelineDef pipeline).queueStrategy = .replace →
        r.waitListByPipeline.slice pipeline = []) ∧
      ∀ l, (env.pipelineDef pipeline).queueLimit = some l →
        ((r.waitListByPipeline.slice pipeline).length : Int) < l := by
  unfold resolveScheduleAction at h
  dsimp only at h
  split_ifs at h with h1 h2 h3
  · split at h
    · rename_i l hl
      split_ifs at h with h4
      refine ⟨h1, fun hr => List.eq_nil_of_length_eq_zero ?_, fun l' hl' => ?_⟩
      · exact Nat.eq_zero_of_not_pos fun hp => h3 ⟨hr, hp⟩
      · rw [hl] at hl'; cases hl'; omega
    · refine ⟨h1, fun hr => List.eq_nil_of_length_eq_zero ?_, fun l' hl' => ?_⟩
      · exact Nat.eq_zero_of_not_pos fun hp => h3 ⟨hr, hp⟩
      · simp_all

/-- What `Replace` tells of the state: no free slot, a queue limit other than zero, the replace
strategy, and a job waiting. -/
theorem resolveScheduleAction_eq_replace {r : PipelineRunner} {pipeline : String}
    (h : resolveScheduleAction env r pipeline = .replace) :
    (env.pipelineDef pipeline).concurrency ≤ runningJobsCount r pipeline ∧
      (env.pipelineDef pipeline).queueLimit ≠ some 0 ∧
      (env.pipelineDef pipeline).queueStrategy = .replace ∧
      r.waitListByPipeline.slice pipeline ≠ [] := by
  unfold resolveScheduleAction at h
  dsimp only at h
  split_ifs at h with h1 h2 h3
  · exact ⟨h1, h2, h3.1, List.ne_nil_of_length_pos h3.2⟩
  · split at h
    · split_ifs at h
    · cases h

section Count

variable {r : PipelineRunner} {q : String}

@[simp] theorem runningJobsCount_spawn (ptr : JobPtr) :
    runningJobsCount (r.spawn ptr) q = runningJobsCount r q := rfl

@[simp] theorem runningJobsCount_requestPersist :
    runningJobsCount r.requestPersist q = runningJobsCount r q := rfl

@[simp] theorem runningJobsCount_setWaitList (p : String) (l : List JobPtr) :
    runningJobsCount (r.setWaitList p l) q = runningJobsCount r q := rfl

/-- A write that leaves the job running or not leaves every count as it is. -/
theorem runningJobsCount_modifyJob {ptr : JobPtr} {f : PipelineJob → PipelineJob}
    (h : (f (r.heap ptr)).isRunning = (r.heap ptr).isRunning) :
    runningJobsCount (r.modifyJob ptr f) q = runningJobsCount r q := by
  unfold runningJobsCount
  refine List.countP_congr fun x _ => ?_
  rw [PipelineRunner.modifyJob_heap]
  split
  · subst x; rw [h]
  · rfl

/-- A write that starts no job raises no count. -/
theorem runningJobsCount_modifyJob_le {ptr : JobPtr} {f : PipelineJob → PipelineJob}
    (h : (f (r.heap ptr)).isRunning = true → (r.heap ptr).isRunning = true) :
    runningJobsCount (r.modifyJob ptr f) q ≤ runningJobsCount r q := by
  unfold runningJobsCount
  refine List.countP_mono_left fun x _ => ?_
  rw [PipelineRunner.modifyJob_heap]
  split
  · subst x; exact h
  · exact id

end Count

/-- Admission reads the running jobs only through their number and the wait list only through
its length. -/
theorem resolveScheduleAction_congr {r r' : PipelineRunner} {pipeline : String}
    (hc : runningJobsCount r' pipeline = runningJobsCount r pipeline)
    (hw : (r'.waitListByPipeline.slice pipeline).length = (r.waitListByPipeline.slice pipeline).length) :
    resolveScheduleAction env r' pipeline = resolveScheduleAction env r pipeline := by
  simp only [resolveScheduleAction, hc, hw]

/-- A free slot stays free while no job starts. -/
theorem resolveScheduleAction_start_of_le {r r' : PipelineRunner} {pipeline : String}
    (hc : runningJobsCount r' pipeline ≤ runningJobsCount r pipeline)
    (h : resolveScheduleAction env r pipeline = .start) :
    resolveScheduleAction env r' pipeline = .start := by
  rw [resolveScheduleAction_eq_start] at *
  omega

end Prunner

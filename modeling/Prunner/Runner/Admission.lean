/-
The runner as an admission queue. `Admission` forgets the heap cells, the indexes, the executions,
the tasks and the persistence flag. It keeps each job's pipeline, whether its execution graph can
be built, and its status, and each pipeline's wait list. Its operations say what the runner is
for:
- `submit` admits a job when its pipeline has a free slot. Otherwise it rejects the job, puts it
  in place of the newest waiting job, or queues it at the end, as the pipeline's queue settings
  say.
- `complete` ends a running job and lets the oldest waiting jobs of its pipeline take the free
  slots.

`PipelineRunner.toAdmission` is the admission queue a runner implements. From every reachable
state, each step of the runner is one step of `Admission` or leaves the abstraction as it was,
and `ScheduleAsync` returns what `submit` decides. So every state a run of the runner reaches is
reached by a run of the admission queue.
-/
import Prunner.Runner.Callbacks

namespace Prunner

/-- What a client of the runner sees of a job. -/
inductive JobStatus
  | waiting
  | running
  | completed
  | canceled
  deriving DecidableEq, Repr, Inhabited

/-- A job as admission sees it: its pipeline, whether its execution graph can be built, and its
status. -/
structure JobView where
  pipeline : String
  builds : Bool
  status : JobStatus
  deriving DecidableEq, Repr, Inhabited

/-- The admission queue: the jobs scheduled so far, numbered from 0 in order, and the wait list
of each pipeline, oldest first. -/
structure Admission where
  jobs : Nat → JobView
  count : Nat
  waitList : String → List Nat

namespace Admission

/-- No job yet. -/
def init : Admission := ⟨fun _ => default, 0, fun _ => []⟩

variable (env : Env)

/-- The jobs of `p` that run. -/
def runningCount (a : Admission) (p : String) : Nat :=
  (List.range a.count).countP fun n => (a.jobs n).pipeline = p ∧ (a.jobs n).status = .running

/-- Job `n` moves to status `s`. -/
def setStatus (n : Nat) (s : JobStatus) (a : Admission) : Admission :=
  { a with jobs := Function.update a.jobs n { a.jobs n with status := s } }

/-- The wait list of `p` becomes `l`. -/
def setWaitList (p : String) (l : List Nat) (a : Admission) : Admission :=
  { a with waitList := Function.update a.waitList p l }

/-- A new job of `p`, waiting, whose graph can be built when `b`. -/
def push (p : String) (b : Bool) (a : Admission) : Admission :=
  { a with jobs := Function.update a.jobs a.count ⟨p, b, .waiting⟩, count := a.count + 1 }

/-- Job `n` takes a slot: it runs when its graph can be built, and is canceled otherwise. -/
def start (n : Nat) (a : Admission) : Admission :=
  a.setStatus n (if (a.jobs n).builds then .running else .canceled)

/-- What the pipeline's settings do with one more job of `p`: start it in a free slot; else
reject it when queueing is off; else with the replace strategy put it in place of a waiting job;
else reject it at the queue limit, or queue it. -/
def action (a : Admission) (p : String) : ScheduleAction :=
  let pd := env.pipelineDef p
  let waitList := a.waitList p
  if (a.runningCount p : Int) < pd.concurrency then .start
  else if pd.queueLimit = some 0 then .noQueue
  else if pd.queueStrategy = .replace ∧ 0 < waitList.length then .replace
  else
    match pd.queueLimit with
    | some limit => if limit ≤ waitList.length then .queueFull else .queue
    | none => .queue

/-- A job of `p` is scheduled, whose graph can be built when `b`: the number of the new job or
the rejection, and the queue after. A replaced job is the newest waiting one; it is canceled. -/
def submit (p : String) (b : Bool) (a : Admission) : Except Error Nat × Admission :=
  let waitList := a.waitList p
  match a.action env p with
  | .noQueue => (.error errNoQueue, a)
  | .queueFull => (.error errQueueFull, a)
  | .queue => (.ok a.count, (a.push p b).setWaitList p (waitList ++ [a.count]))
  | .replace =>
    (.ok a.count, ((a.push p b).setStatus (waitList.getLastD 0) .canceled).setWaitList p
      (waitList.dropLast ++ [a.count]))
  | .start => (.ok a.count, (a.push p b).start a.count)

/-- While `p` has a free slot, the oldest waiting job of `p` takes it; what is left waits. -/
def drain (p : String) : List Nat → Admission → Admission
  | [], a => a.setWaitList p []
  | n :: waitList, a =>
    if (a.runningCount p : Int) < (env.pipelineDef p).concurrency then drain p waitList (a.start n)
    else a.setWaitList p (n :: waitList)

/-- Running job `n` ends, and the oldest waiting jobs of its pipeline take the free slots. -/
def complete (n : Nat) (a : Admission) : Admission :=
  let p := (a.jobs n).pipeline
  let a := a.setStatus n .completed
  drain env p (a.waitList p) a

/-- A step of the admission queue: a job of a defined pipeline is scheduled, or a running job
ends. -/
inductive Step : Admission → Admission → Prop
  | submit {a : Admission} (p : String) (b : Bool) : p ∈ env.pipelines → Step a (a.submit env p b).2
  | complete {a : Admission} (n : Nat) :
      n < a.count → (a.jobs n).status = .running → Step a (a.complete env n)

variable {env}

@[simp] theorem setWaitList_self (a : Admission) (p : String) : a.setWaitList p (a.waitList p) = a := by
  simp [setWaitList]

@[simp] theorem setWaitList_setWaitList (a : Admission) (p : String) (l l' : List Nat) :
    (a.setWaitList p l).setWaitList p l' = a.setWaitList p l' := by
  simp [setWaitList]

@[simp] theorem runningCount_setWaitList (a : Admission) (p q : String) (l : List Nat) :
    (a.setWaitList p l).runningCount q = a.runningCount q := rfl

theorem start_setWaitList (a : Admission) (p : String) (l : List Nat) (n : Nat) :
    (a.setWaitList p l).start n = (a.start n).setWaitList p l := rfl

section Drain

variable {p : String} {a : Admission} {n : Nat} {l : List Nat}

theorem drain_nil : drain env p [] a = a.setWaitList p [] := rfl

theorem drain_cons_of_lt (h : (a.runningCount p : Int) < (env.pipelineDef p).concurrency) :
    drain env p (n :: l) a = drain env p l (a.start n) := if_pos h

theorem drain_cons_of_le (h : (env.pipelineDef p).concurrency ≤ a.runningCount p) :
    drain env p (n :: l) a = a.setWaitList p (n :: l) := if_neg (not_lt.2 h)

end Drain

/-- The drain reads no wait list but the one it is given. -/
theorem drain_setWaitList (p : String) :
    ∀ (l l' : List Nat) (a : Admission), drain env p l (a.setWaitList p l') = drain env p l a
  | [], _, a => setWaitList_setWaitList a p _ _
  | n :: l, l', a => by
    by_cases h : (a.runningCount p : Int) < (env.pipelineDef p).concurrency
    · rw [drain_cons_of_lt (a := a.setWaitList p l') h, drain_cons_of_lt h, start_setWaitList,
        drain_setWaitList p l]
    · rw [drain_cons_of_le (a := a.setWaitList p l') (le_of_not_lt h),
        drain_cons_of_le (le_of_not_lt h), setWaitList_setWaitList]

end Admission

/-! ## The abstraction of a runner -/

/-- A job's status by its flags. -/
def PipelineJob.status (j : PipelineJob) : JobStatus :=
  if j.completed then .completed
  else if j.canceled then .canceled
  else if j.start.isSome then .running
  else .waiting

/-- What admission sees of a job. -/
def jobView (env : Env) (j : PipelineJob) : JobView :=
  ⟨j.pipeline, graphBuilds env j, j.status⟩

/-- The admission queue a runner implements: its allocated jobs and its wait lists. -/
def PipelineRunner.toAdmission (env : Env) (r : PipelineRunner) : Admission where
  jobs n := if n < r.next then jobView env (r.heap n) else default
  count := r.next
  waitList p := r.waitListByPipeline.slice p

theorem PipelineJob.status_eq_running {j : PipelineJob} : j.status = .running ↔ j.isRunning = true := by
  unfold PipelineJob.status
  rw [PipelineJob.isRunning_iff]
  split_ifs <;> simp_all

theorem PipelineJob.status_of_waiting {j : PipelineJob} (h : j.Waiting) : j.status = .waiting := by
  simp [PipelineJob.status, h.1, h.2.1, h.2.2]

section Abstraction

variable {env : Env} {r : PipelineRunner}

namespace PipelineRunner

@[simp] theorem toAdmission_count : (r.toAdmission env).count = r.next := rfl

@[simp] theorem toAdmission_waitList (p : String) :
    (r.toAdmission env).waitList p = r.waitListByPipeline.slice p := rfl

theorem toAdmission_jobs_of_lt {n : Nat} (h : n < r.next) :
    (r.toAdmission env).jobs n = jobView env (r.heap n) := if_pos h

@[simp] theorem toAdmission_requestPersist : r.requestPersist.toAdmission env = r.toAdmission env := rfl

@[simp] theorem toAdmission_spawn (ptr : JobPtr) : (r.spawn ptr).toAdmission env = r.toAdmission env :=
  rfl

@[simp] theorem toAdmission_setExecutions (l : List Execution) :
    ({ r with executions := l } : PipelineRunner).toAdmission env = r.toAdmission env := rfl

@[simp] theorem toAdmission_setWaitList (p : String) (l : List JobPtr) :
    (r.setWaitList p l).toAdmission env = (r.toAdmission env).setWaitList p l := by
  simp only [toAdmission, setWaitList, Admission.setWaitList, Admission.mk.injEq, true_and]
  funext q
  rw [GoMap.slice_insert, Function.update_apply]

/-- A new waiting job is pushed. -/
theorem toAdmission_register {j : PipelineJob} (hj : j.Waiting) :
    (r.register j).toAdmission env = (r.toAdmission env).push j.pipeline (graphBuilds env j) := by
  simp only [toAdmission, register_next, register_waitListByPipeline, Admission.push,
    Admission.mk.injEq, and_true, true_and]
  funext n
  rw [Function.update_apply]
  rcases lt_trichotomy n r.next with h | rfl | h
  · rw [if_pos (Nat.lt_succ_of_lt h), register_heap_of_lt j h, if_neg (Nat.ne_of_lt h), if_pos h]
  · simp [jobView, PipelineJob.status_of_waiting hj]
  · rw [if_neg (by omega), if_neg (Nat.ne_of_gt h), if_neg (by omega)]

/-- Writing a job that keeps its pipeline and graph moves it to its new status. -/
theorem toAdmission_modifyJob {ptr : JobPtr} (hp : ptr < r.next) {f : PipelineJob → PipelineJob}
    (hf : (f (r.heap ptr)).pipeline = (r.heap ptr).pipeline ∧
      graphBuilds env (f (r.heap ptr)) = graphBuilds env (r.heap ptr)) :
    (r.modifyJob ptr f).toAdmission env =
      (r.toAdmission env).setStatus ptr (f (r.heap ptr)).status := by
  simp only [toAdmission, modifyJob_next, modifyJob_waitListByPipeline, Admission.setStatus,
    Admission.mk.injEq, and_true]
  funext n
  rw [Function.update_apply, modifyJob_heap]
  by_cases hn : n = ptr
  · subst n; simp [hp, jobView, hf.1, hf.2]
  · simp only [hn, if_false]

end PipelineRunner

/-- Starting a waiting job whose graph is built: it runs. -/
theorem toAdmission_startJobOk {now : Time} {ptr : JobPtr} (hp : ptr < r.next)
    (hw : (r.heap ptr).Waiting) (hb : graphBuilds env (r.heap ptr) = true) :
    (startJobOk now ptr r).toAdmission env = (r.toAdmission env).start ptr := by
  rw [startJobOk, PipelineRunner.toAdmission_requestPersist, PipelineRunner.toAdmission_spawn,
    PipelineRunner.toAdmission_modifyJob hp ⟨rfl, rfl⟩, Admission.start,
    PipelineRunner.toAdmission_jobs_of_lt hp]
  simp [PipelineJob.status, jobView, hw.2.1, hw.2.2, hb]

/-- Admission counts the running jobs the runner counts. -/
theorem Indexed.runningCount_toAdmission (hc : Indexed r) (p : String) :
    (r.toAdmission env).runningCount p = runningJobsCount r p := by
  rw [runningJobsCount, hc.byPipeline, List.countP_filter, Admission.runningCount]
  refine List.countP_congr fun n hn => ?_
  rw [PipelineRunner.toAdmission_count] at hn
  rw [PipelineRunner.toAdmission_jobs_of_lt (List.mem_range.1 hn)]
  simp [jobView, PipelineJob.status_eq_running, and_comm]

/-- Admission decides the action the runner's rule decides. -/
theorem Indexed.action_toAdmission (hc : Indexed r) (p : String) :
    (r.toAdmission env).action env p = resolveScheduleAction env r p := by
  unfold Admission.action resolveScheduleAction
  simp only [hc.runningCount_toAdmission, PipelineRunner.toAdmission_waitList]
  by_cases h : (env.pipelineDef p).concurrency ≤ runningJobsCount r p
  · exact (if_neg (not_lt.2 h)).trans (if_pos h).symm
  · exact (if_pos (lt_of_not_le h)).trans (if_neg h).symm

/-! ## The drain -/

/-- The drain that returns is the admission queue's drain of the wait list. -/
theorem Drains.toAdmission {now : Time} {p : String} {r' : PipelineRunner}
    (h : Drains env now p r r') (hc : Core env r) :
    r'.toAdmission env = (r.toAdmission env).drain env p (r.waitListByPipeline.slice p) := by
  induction h with
  | @stop r hs =>
    rw [PipelineRunner.toAdmission_setWaitList]
    rcases hw : r.waitListByPipeline.slice p with _ | ⟨n, l⟩
    · rfl
    · have hs : resolveScheduleAction env r p ≠ .start := hs.resolve_left (by rw [hw]; nofun)
      rw [ne_eq, resolveScheduleAction_eq_start, not_lt, ← hc.runningCount_toAdmission] at hs
      rw [Admission.drain_cons_of_le hs]
  | @pop r r' j js hw hfree hb _ ih =>
    obtain ⟨hjn, -, hjw⟩ := hc.waiting p j (by simp [hw])
    have hfree' := resolveScheduleAction_eq_start.1 hfree
    rw [← hc.runningCount_toAdmission] at hfree'
    rw [ih (hc.pop hw hfree), PipelineRunner.toAdmission_setWaitList, toAdmission_startJobOk hjn hjw hb,
      PipelineRunner.setWaitList_waitListByPipeline, GoMap.slice_insert_self, Admission.drain_setWaitList,
      hw, Admission.drain_cons_of_lt hfree']

/-- A drain of an empty wait list writes it back and does nothing else. -/
theorem Drains.of_nil {now : Time} {p : String} {r' : PipelineRunner} (h : Drains env now p r r')
    (hw : r.waitListByPipeline.slice p = []) : r' = r.setWaitList p [] := by
  cases h with
  | stop _ => rw [hw]
  | pop hw' => rw [hw] at hw'; cases hw'

/-! ## The operations -/

/-- A write that keeps what admission sees of every job keeps the abstraction. -/
theorem PipelineRunner.toAdmission_modifyJob_of {ptr : JobPtr} {f : PipelineJob → PipelineJob}
    (hf : ∀ j, jobView env (f j) = jobView env j) : (r.modifyJob ptr f).toAdmission env = r.toAdmission env := by
  simp only [toAdmission, modifyJob_next, modifyJob_waitListByPipeline, Admission.mk.injEq, and_true]
  funext n
  rw [modifyJob_heap_of r ptr (jobView env) hf]

/-- A callback's write of a task that keeps what `buildPipelineGraph` reads keeps the
abstraction. -/
theorem toAdmission_taskWrite {id : UUID} {name : String} {u : JobTask → JobTask}
    (hu : ∀ jt, (u jt).name = jt.name ∧ (u jt).toTaskDef = jt.toTaskDef) (x : PipelineRunner) :
    (taskWrite id name u x x).toAdmission env = x.toAdmission env := by
  rcases taskWrite_cases id name u x with ⟨h, -⟩ | ⟨ptr, i, -, -, h⟩ <;> rw [h]
  rw [writeTasks, PipelineRunner.toAdmission_requestPersist]
  refine PipelineRunner.toAdmission_modifyJob_of fun j => ?_
  have hg : pipelineStages j.id (j.tasks.modify u i) = pipelineStages j.id j.tasks :=
    map_modify_of (fun jt => by rw [(hu jt).1, (hu jt).2]) _ _
  simp only [jobView, graphBuilds, buildPipelineGraph, hg, PipelineJob.status]

theorem toAdmission_handleTaskChange (t : TaskChange) (x : PipelineRunner) :
    (handleTaskChange t x).toAdmission env = x.toAdmission env := by
  rw [handleTaskChange_eq_taskWrite]; exact toAdmission_taskWrite (TaskChange.update_keeps t) x

theorem toAdmission_handleStageChange (s : StageChange) (x : PipelineRunner) :
    (handleStageChange s x).toAdmission env = x.toAdmission env := by
  rw [handleStageChange_eq_taskWrite]; exact toAdmission_taskWrite (StageChange.update_keeps s) x

section Schedule

variable {now : Time} {fuel : Nat} {p : String} {pd : PipelineDef} {opts : ScheduleOpts} {id : UUID}
  {res : Except Error JobPtr} {r' : PipelineRunner}

/-- `ScheduleAsync` of a defined pipeline with a drawn id returns what `submit` decides for a
job whose graph is built when `buildPipelineGraph` succeeds, and leaves the queue `submit`
leaves. -/
theorem scheduleAsync_toAdmission (hw : WF env r) (hp : env.pipelines.lookup p = some pd)
    (h : scheduleAsync env now fuel p opts (.ok id) r = some (res, r')) :
    (res, r'.toAdmission env) =
      (r.toAdmission env).submit env p (buildPipelineGraph env id (buildJobTasks pd.tasks)).isOk := by
  -- the job `ScheduleAsync` builds
  obtain ⟨j, hj, hjw, hjp, hb⟩ : ∃ j : PipelineJob,
      j = { id, pipeline := p, created := now, user := opts.user, tasks := buildJobTasks pd.tasks } ∧
        j.Waiting ∧ j.pipeline = p ∧
        graphBuilds env j = (buildPipelineGraph env id (buildJobTasks pd.tasks)).isOk :=
    ⟨_, rfl, ⟨rfl, rfl, rfl⟩, rfl, rfl⟩
  have hreg : (r.register j).toAdmission env = (r.toAdmission env).push p (graphBuilds env j) :=
    hjp ▸ PipelineRunner.toAdmission_register hjw
  unfold Admission.submit
  rw [hw.core.action_toAdmission, ← hb]
  cases hact : resolveScheduleAction env r p with
  | noQueue =>
    simp only [scheduleAsync, hp, hact, if_true, Option.some.injEq, Prod.mk.injEq] at h
    obtain ⟨rfl, rfl⟩ := h
    rfl
  | queueFull =>
    simp only [scheduleAsync, hp, hact, Option.some.injEq, Prod.mk.injEq] at h
    obtain ⟨rfl, rfl⟩ := h
    rfl
  | queue =>
    simp only [scheduleAsync, hp, hact, Option.some.injEq, Prod.mk.injEq, ← hj] at h
    obtain ⟨rfl, rfl⟩ := h
    rw [PipelineRunner.toAdmission_requestPersist, PipelineRunner.toAdmission_setWaitList, hreg]
    rfl
  | replace =>
    obtain ⟨d, hd⟩ := hw.core.replace_single hact
    obtain ⟨hdn, -, hdw⟩ := hw.core.waiting p d (by simp [hd])
    simp only [scheduleAsync, hp, hact, Option.some.injEq, Prod.mk.injEq, ← hj] at h
    obtain ⟨rfl, rfl⟩ := h
    rw [PipelineRunner.toAdmission_requestPersist, PipelineRunner.toAdmission_setWaitList,
      PipelineRunner.register_waitListByPipeline, PipelineRunner.toAdmission_waitList, hd,
      PipelineRunner.toAdmission_modifyJob (Nat.lt_succ_of_lt (by simpa using hdn)) ⟨rfl, rfl⟩, hreg]
    simp [PipelineRunner.register_heap_of_lt _ hdn, PipelineJob.status, hdw.2.1]
  | start =>
    have hW : r.waitListByPipeline.slice p = [] := by
      by_contra hne
      exact absurd (hw.full p hne) (by have := resolveScheduleAction_eq_start.1 hact; omega)
    simp only [scheduleAsync, hp, hact, startJob, ← hj] at h
    cases hbj : graphBuilds env j with
    | true =>
      rw [startJobWith_of_builds (by simpa using hbj)] at h
      simp only [Option.map_some', Option.some.injEq, Prod.mk.injEq] at h
      obtain ⟨rfl, rfl⟩ := h
      rw [PipelineRunner.toAdmission_requestPersist,
        toAdmission_startJobOk (by simp) (by simpa using hjw) (by simpa using hbj), hreg, hbj]
      rfl
    | false =>
      obtain ⟨err, he⟩ := startJobWith_of_fails now (startJobsOnWaitList env now fuel)
        (show graphBuilds env ((r.register j).heap r.next) = false by simpa using hbj)
      rw [he, if_neg (by decide), if_neg (by decide)] at h
      obtain ⟨r4, h4, hr⟩ := Option.map_eq_some'.1 h
      obtain ⟨r3, h3, rfl⟩ := Option.map_eq_some'.1 h4
      simp only [Prod.mk.injEq] at hr
      obtain ⟨rfl, rfl⟩ := hr
      have hd := (startJobsOnWaitList_drains (by simp [hW, hjp]) (by simp [hW, hjp]) h3).of_nil
        (by simp [hW, hjp])
      rw [PipelineRunner.toAdmission_requestPersist, PipelineRunner.toAdmission_requestPersist, hd,
        PipelineRunner.toAdmission_setWaitList, PipelineRunner.toAdmission_modifyJob (by simp)
          ⟨rfl, rfl⟩, hreg]
      simp [Admission.start, Admission.push, Admission.setStatus, Admission.setWaitList,
        PipelineJob.status, cancelWith, hbj, hW, hjp, hjw.2.1]

end Schedule

/-- The return of an execution completes its job, which ran, and drains its pipeline. -/
theorem finishExecution_toAdmission {now : Time} {fuel i : Nat} {lastErr : Option Error}
    {c : JobPtr} {r' : PipelineRunner} (hw : WF env r) (hi : r.executions[i]? = some ⟨c, false⟩)
    (h : finishExecution env now fuel i lastErr r = some r') :
    c < r.next ∧ ((r.toAdmission env).jobs c).status = .running ∧
      r'.toAdmission env = (r.toAdmission env).complete env c := by
  have hc := hw.core
  obtain ⟨hcn, hstart, hdone, hcan⟩ := hc.running_of_execution hi
  refine ⟨hcn, ?_, ?_⟩
  · rw [PipelineRunner.toAdmission_jobs_of_lt hcn]
    simp [jobView, PipelineJob.status, hdone, hcan, hstart]
  obtain ⟨r3, h3, rfl⟩ := hc.finishExecution_eq hi h
  have hc' := hc.complete hi
    (f := fun j => { j with completed := true, «end» := some now, lastError := lastErr })
    fun _ => ⟨rfl, rfl, rfl, rfl, rfl⟩
  have hd := startJobsOnWaitList_drains ((hc'.sorted _).imp Nat.ne_of_lt)
    (fun j hj => (hc'.waiting _ j hj).2.1) h3
  rw [PipelineRunner.toAdmission_requestPersist, hd.toAdmission hc',
    PipelineRunner.toAdmission_modifyJob (r := { r with executions := r.executions.set i ⟨c, true⟩ })
      hcn ⟨rfl, rfl⟩, PipelineRunner.toAdmission_setExecutions]
  simp only [Admission.complete, PipelineRunner.toAdmission_jobs_of_lt hcn, jobView]
  rfl

/-- `ScheduleAsync` leaves what admission sees as it was, or submits a job of a defined
pipeline. -/
theorem WF.scheduleAsync_toAdmission_cases {now : Time} {fuel : Nat} {p : String}
    {opts : ScheduleOpts} {newV4 : Except Error UUID} {res : Except Error JobPtr} {r' : PipelineRunner}
    (hw : WF env r) (h : Prunner.scheduleAsync env now fuel p opts newV4 r = some (res, r')) :
    r'.toAdmission env = r.toAdmission env ∨
      ∃ b, p ∈ env.pipelines ∧ r'.toAdmission env = ((r.toAdmission env).submit env p b).2 := by
  cases hp : env.pipelines.lookup p with
  | none =>
    simp only [Prunner.scheduleAsync, hp, Option.some.injEq, Prod.mk.injEq] at h
    rw [← h.2]
    exact .inl rfl
  | some pd =>
    cases newV4 with
    | error err =>
      rcases Prunner.scheduleAsync_cases h with rfl | ⟨j, hid, -⟩
      · exact .inl rfl
      · cases hid
    | ok id =>
      exact .inr ⟨_, AList.lookup_isSome.1 (by rw [hp]; rfl),
        congrArg Prod.snd (scheduleAsync_toAdmission hw hp h)⟩

/-- From a state that keeps the invariant, a step of the runner is a step of the admission
queue, or leaves what admission sees as it was. -/
theorem WF.step_toAdmission {r' : PipelineRunner} (hw : WF env r) (hs : Step env r r') :
    Relation.ReflGen (Admission.Step env) (r.toAdmission env) (r'.toAdmission env) := by
  cases hs with
  | scheduleAsync now fuel p opts newV4 _ h =>
    rcases hw.scheduleAsync_toAdmission_cases h with he | ⟨b, hp, he⟩ <;> rw [he]
    exact .single (.submit p b hp)
  | jobCompleted now fuel i lastErr job hi h =>
    obtain ⟨hlt, hrun, he⟩ := finishExecution_toAdmission hw hi h
    rw [he]
    exact .single (.complete job hlt hrun)
  | handleTaskChange t => rw [toAdmission_handleTaskChange]
  | handleStageChange s => rw [toAdmission_handleStageChange]

end Abstraction

theorem PipelineRunner.toAdmission_empty (env : Env) : PipelineRunner.empty.toAdmission env = .init := by
  simp only [toAdmission, empty, Nat.not_lt_zero, if_false, GoMap.slice_empty]
  rfl

/-- Every state the runner reaches is, as admission sees it, reached by a run of the admission
queue. -/
theorem Reachable.reflTransGen_toAdmission {env : Env} {r : PipelineRunner} (hr : Reachable env r) :
    Relation.ReflTransGen (Admission.Step env) .init (r.toAdmission env) := by
  induction hr with
  | empty => rw [PipelineRunner.toAdmission_empty]
  | step hr' hs ih => exact ih.trans (hr'.wf.step_toAdmission hs).to_reflTransGen

/-- The runner implements the admission queue. Every state a run from the empty runner reaches
is, as admission sees it, reached by a run of the admission queue. From there, each step of the
runner is one step of the admission queue or changes nothing admission sees. `ScheduleAsync`
of a defined pipeline with a drawn id returns the job number or the rejection that `submit`
decides. -/
theorem runner_refines_admission {env : Env} {r : PipelineRunner} (hr : Reachable env r) :
    Relation.ReflTransGen (Admission.Step env) .init (r.toAdmission env) ∧
      (∀ r', Step env r r' →
        Relation.ReflGen (Admission.Step env) (r.toAdmission env) (r'.toAdmission env)) ∧
      ∀ now fuel p pd opts id res r', env.pipelines.lookup p = some pd →
        scheduleAsync env now fuel p opts (.ok id) r = some (res, r') →
        (res, r'.toAdmission env) =
          (r.toAdmission env).submit env p (buildPipelineGraph env id (buildJobTasks pd.tasks)).isOk := by
  exact ⟨hr.reflTransGen_toAdmission, fun _ hs => hr.wf.step_toAdmission hs,
    fun _ _ _ _ _ _ _ _ hp h => scheduleAsync_toAdmission hr.wf hp h⟩

/-- In `buildEnv`, once a first job of `build` runs, admission sees it running, and a second
job would be queued as job 1. -/
theorem runner_refines_admission_build :
    ∃ r, Reachable buildEnv r ∧ Relation.ReflTransGen (Admission.Step buildEnv) .init (r.toAdmission buildEnv) ∧
      ((r.toAdmission buildEnv).jobs 0).status = .running ∧
      ∃ r', scheduleAsync buildEnv 1 1 "build" ⟨""⟩ (.ok 1) r = some (.ok 1, r') ∧
        r'.toAdmission buildEnv = ((r.toAdmission buildEnv).submit buildEnv "build" true).2 := by
  have h1 : Reachable buildEnv _ := .step .empty (Step.scheduleAsync 0 1 "build" ⟨""⟩ (.ok 0)
    (fun _ _ ptr h => absurd h (Nat.not_lt_zero _)) rfl)
  obtain ⟨ha, -, hs⟩ := runner_refines_admission h1
  exact ⟨_, h1, ha, by decide, _, rfl, congrArg Prod.snd (hs 1 1 "build" _ ⟨""⟩ 1 _ _ rfl rfl)⟩

end Prunner

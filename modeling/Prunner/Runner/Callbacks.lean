/-
The callbacks commute. `r.mx` serializes the task runner's task changes, the scheduler's stage
changes and the `jobCompleted` of each execution in whatever order their goroutines take the lock.
A task or stage change writes only the state fields of one task (its times, exit code, error or
status), which nothing else reads: `buildPipelineGraph` reads the tasks' names and definitions,
the admission rule reads the jobs' start, completion and cancellation, and the callbacks find a
task by its job's id and its name. So a change commutes with every `jobCompleted` and with a change
of the other kind, and a run of callbacks ends in a state that depends only on the order of the
callbacks of each source.
-/
import Prunner.Runner.Reachable
import Prunner.Tasks.Orders

namespace Prunner

variable {env : Env} {now : Time}

/-! ## What the drain keeps -/

/-- A relation between states that `startJob` and the drain keep at each write. A job starts
only once its graph is built. -/
structure DrainKeeps (env : Env) (R : PipelineRunner → PipelineRunner → Prop) : Prop where
  refl : ∀ r, R r r
  trans : ∀ {r r' r''}, R r r' → R r' r'' → R r r''
  startJobOk : ∀ now j r, graphBuilds env (r.heap j) = true → R r (startJobOk now j r)
  cancel : ∀ err j r, R r (r.modifyJob j (cancelWith err))
  setWaitList : ∀ p l r, R r (r.setWaitList p l)
  requestPersist : ∀ r, R r r.requestPersist

namespace DrainKeeps

variable {R : PipelineRunner → PipelineRunner → Prop} (h : DrainKeeps env R)
include h

theorem loop {start : JobPtr → PipelineRunner → Option PipelineRunner}
    (hs : ∀ j r r', start j r = some r' → R r r') (p : String) :
    ∀ (l : List JobPtr) (r : PipelineRunner) (res : List JobPtr × PipelineRunner),
      startJobsOnWaitListLoop env start p l r = some res → R r res.2
  | [], r, res, hl => by cases hl; exact h.refl r
  | j :: l, r, res, hl => by
    unfold startJobsOnWaitListLoop at hl
    split at hl
    · obtain ⟨r1, h1, h2⟩ := Option.bind_eq_some.1 hl
      exact h.trans (hs j r r1 h1) (loop hs p l r1 res h2)
    · cases hl; exact h.refl r

theorem startJobWith {drain : String → PipelineRunner → Option PipelineRunner}
    (hd : ∀ p r r', drain p r = some r' → R r r') {ptr : JobPtr} {r r' : PipelineRunner}
    (hj : startJobWith env now drain ptr r = some r') : R r r' := by
  cases hg : graphBuilds env (r.heap ptr)
  · obtain ⟨err, he⟩ := startJobWith_of_fails now drain hg
    rw [he] at hj
    obtain ⟨r2, h2, rfl⟩ := Option.map_eq_some'.1 hj
    exact h.trans (h.trans (h.cancel err ptr r) (hd _ _ _ h2)) (h.requestPersist r2)
  · rw [startJobWith_of_builds hg] at hj
    cases hj
    exact h.startJobOk now ptr r hg

theorem startJobsOnWaitList :
    ∀ (fuel : Nat) (p : String) (r r' : PipelineRunner),
      startJobsOnWaitList env now fuel p r = some r' → R r r'
  | 0, _, _, _, hs => by cases hs
  | fuel + 1, p, r, r', hs => by
    obtain ⟨res, h1, rfl⟩ := Option.map_eq_some'.1 hs
    exact h.trans (h.loop (fun _ _ _ => h.startJobWith (startJobsOnWaitList fuel)) p _ r res h1)
      (h.setWaitList _ _ _)

end DrainKeeps

/-! ## What the callbacks look up -/

/-- The two states agree on what a callback looks up: the job of each id, and the names of each
job's tasks. -/
structure SameLookups (r r' : PipelineRunner) : Prop where
  jobsByID : r'.jobsByID = r.jobsByID
  names : ∀ x, (r'.heap x).tasks.map (·.name) = (r.heap x).tasks.map (·.name)

namespace SameLookups

theorem refl (r : PipelineRunner) : SameLookups r r := ⟨rfl, fun _ => rfl⟩

theorem trans {r r' r'' : PipelineRunner} (h : SameLookups r r') (h' : SameLookups r' r'') :
    SameLookups r r'' :=
  ⟨h'.jobsByID.trans h.jobsByID, fun x => (h'.names x).trans (h.names x)⟩

/-- A write that keeps the tasks' names keeps the lookups. -/
theorem modifyJob (r : PipelineRunner) (ptr : JobPtr) {f : PipelineJob → PipelineJob}
    (hf : ∀ j, (f j).tasks.map (·.name) = j.tasks.map (·.name)) :
    SameLookups r (r.modifyJob ptr f) :=
  ⟨rfl, fun x => PipelineRunner.modifyJob_heap_of r ptr (·.tasks.map (·.name)) hf x⟩

theorem drainKeeps : DrainKeeps env SameLookups where
  refl := refl
  trans := trans
  startJobOk n j r _ :=
    (modifyJob r j (f := fun j => { j with start := some n }) fun _ => rfl).trans ⟨rfl, fun _ => rfl⟩
  cancel _ j r := modifyJob r j fun _ => rfl
  setWaitList _ _ _ := ⟨rfl, fun _ => rfl⟩
  requestPersist _ := ⟨rfl, fun _ => rfl⟩

theorem finishExecution {fuel i : Nat} {lastErr : Option Error} {r r' : PipelineRunner}
    (hf : finishExecution env now fuel i lastErr r = some r') : SameLookups r r' := by
  unfold Prunner.finishExecution jobCompleted at hf
  dsimp only at hf
  split at hf
  · cases hf; exact ⟨rfl, fun _ => rfl⟩
  · obtain ⟨r2, h2, rfl⟩ := Option.map_eq_some'.1 hf
    refine .trans ?_ ((drainKeeps.startJobsOnWaitList fuel _ _ _ h2).trans ⟨rfl, fun _ => rfl⟩)
    refine .trans ?_ (modifyJob _ _ fun _ => rfl)
    exact ⟨rfl, fun _ => rfl⟩

end SameLookups

/-- `byName` reads only the names of the tasks. -/
theorem byName_eq_of_names {jt jt' : JobTasks} (h : jt'.map (·.name) = jt.map (·.name))
    (name : String) : jt'.byName name = jt.byName name := by
  have h' := congrArg (List.findIdx? (· == name)) h
  simpa only [List.findIdx?_map] using h'

/-! ## A write of task state that the drain does not see -/

/-- What a callback writes once it has found the task: the tasks of the job at `ptr`, by `g`,
then `requestPersist`. -/
def writeTasks (ptr : JobPtr) (g : JobTasks → JobTasks) (r : PipelineRunner) : PipelineRunner :=
  (r.modifyJob ptr fun j => { j with tasks := g j.tasks }).requestPersist

section WriteTasks

variable {ptr : JobPtr} {g : JobTasks → JobTasks} {r : PipelineRunner}

/-- A write of other fields of a job commutes with the write of its tasks. -/
theorem writeTasks_modifyJob {a : JobPtr} {f : PipelineJob → PipelineJob}
    (hf : ∀ j, f { j with tasks := g j.tasks } = { f j with tasks := g (f j).tasks }) :
    (writeTasks ptr g r).modifyJob a f = writeTasks ptr g (r.modifyJob a f) := by
  simp only [writeTasks, PipelineRunner.modifyJob, PipelineRunner.requestPersist,
    PipelineRunner.mk.injEq, and_true]
  funext x
  by_cases hx : x = a <;> by_cases hp : x = ptr <;>
    simp_all [Function.update_apply]

theorem writeTasks_heap_of {β : Type} (h : PipelineJob → β)
    (hh : ∀ j, h { j with tasks := g j.tasks } = h j) (x : JobPtr) :
    h ((writeTasks ptr g r).heap x) = h (r.heap x) :=
  PipelineRunner.modifyJob_heap_of r ptr h hh x

theorem runningJobsCount_writeTasks (q : String) :
    runningJobsCount (writeTasks ptr g r) q = runningJobsCount r q :=
  (runningJobsCount_requestPersist).trans
    (runningJobsCount_modifyJob (f := fun j => { j with tasks := g j.tasks }) rfl)

theorem resolveScheduleAction_writeTasks (p : String) :
    resolveScheduleAction env (writeTasks ptr g r) p = resolveScheduleAction env r p :=
  resolveScheduleAction_congr (runningJobsCount_writeTasks p) rfl

theorem startJobOk_writeTasks (j : JobPtr) :
    startJobOk now j (writeTasks ptr g r) = writeTasks ptr g (startJobOk now j r) := by
  unfold startJobOk
  rw [writeTasks_modifyJob fun _ => rfl]
  rfl

theorem writeTasks_setExecutions (es : List Execution) :
    { writeTasks ptr g r with executions := es } = writeTasks ptr g { r with executions := es } :=
  rfl

theorem map_writeTasks_requestPersist (o : Option PipelineRunner) :
    (o.map (writeTasks ptr g)).map PipelineRunner.requestPersist =
      (o.map PipelineRunner.requestPersist).map (writeTasks ptr g) := by
  cases o <;> rfl

variable (hg : ∀ id ts, pipelineStages id (g ts) = pipelineStages id ts)
include hg

theorem buildPipelineGraph_writeTasks (x : JobPtr) :
    buildPipelineGraph env ((writeTasks ptr g r).heap x).id ((writeTasks ptr g r).heap x).tasks =
      buildPipelineGraph env (r.heap x).id (r.heap x).tasks :=
  writeTasks_heap_of (fun j => buildPipelineGraph env j.id j.tasks)
    (fun j => by simp only [buildPipelineGraph, hg]) x

theorem startJobWith_writeTasks {drain : String → PipelineRunner → Option PipelineRunner}
    (hd : ∀ p r, drain p (writeTasks ptr g r) = (drain p r).map (writeTasks ptr g)) (j : JobPtr) :
    startJobWith env now drain j (writeTasks ptr g r) =
      (startJobWith env now drain j r).map (writeTasks ptr g) := by
  unfold startJobWith
  dsimp only
  rw [buildPipelineGraph_writeTasks hg]
  cases buildPipelineGraph env (r.heap j).id (r.heap j).tasks with
  | error err =>
    dsimp only
    rw [writeTasks_heap_of (·.pipeline) (fun _ => rfl), writeTasks_modifyJob fun _ => rfl, hd,
      map_writeTasks_requestPersist]
  | ok _ => exact congrArg some (startJobOk_writeTasks j)

omit hg in
theorem startJobsOnWaitListLoop_writeTasks {start : JobPtr → PipelineRunner → Option PipelineRunner}
    (hs : ∀ j r, start j (writeTasks ptr g r) = (start j r).map (writeTasks ptr g)) (p : String) :
    ∀ (l : List JobPtr) (r : PipelineRunner),
      startJobsOnWaitListLoop env start p l (writeTasks ptr g r) =
        (startJobsOnWaitListLoop env start p l r).map (Prod.map id (writeTasks ptr g))
  | [], _ => rfl
  | j :: l, r => by
    simp only [startJobsOnWaitListLoop, resolveScheduleAction_writeTasks]
    split
    · rw [hs, Option.bind_map, Option.map_bind]
      exact congrArg _ (funext fun r1 => startJobsOnWaitListLoop_writeTasks hs p l r1)
    · rfl

theorem startJobsOnWaitList_writeTasks :
    ∀ (fuel : Nat) (p : String) (r : PipelineRunner),
      startJobsOnWaitList env now fuel p (writeTasks ptr g r) =
        (startJobsOnWaitList env now fuel p r).map (writeTasks ptr g)
  | 0, _, _ => rfl
  | fuel + 1, p, r => by
    simp only [startJobsOnWaitList]
    rw [show (writeTasks ptr g r).waitListByPipeline = r.waitListByPipeline from rfl,
      startJobsOnWaitListLoop_writeTasks
        (fun j r => startJobWith_writeTasks hg (startJobsOnWaitList_writeTasks fuel) j),
      Option.map_map, Option.map_map]
    rfl

theorem jobCompleted_writeTasks (fuel : Nat) (id : UUID) (err : Option Error) :
    jobCompleted env now fuel id err (writeTasks ptr g r) =
      (jobCompleted env now fuel id err r).map (writeTasks ptr g) := by
  unfold jobCompleted
  rw [show (writeTasks ptr g r).jobsByID = r.jobsByID from rfl]
  split
  · rfl
  · dsimp only
    rw [writeTasks_modifyJob fun _ => rfl, writeTasks_heap_of (·.pipeline) (fun _ => rfl),
      startJobsOnWaitList_writeTasks hg, map_writeTasks_requestPersist]

theorem finishExecution_writeTasks (fuel i : Nat) (lastErr : Option Error) :
    finishExecution env now fuel i lastErr (writeTasks ptr g r) =
      (finishExecution env now fuel i lastErr r).map (writeTasks ptr g) := by
  unfold finishExecution
  dsimp only
  rw [show (writeTasks ptr g r).executions = r.executions from rfl,
    writeTasks_heap_of (·.id) (fun _ => rfl)]
  rw [writeTasks_setExecutions]
  exact jobCompleted_writeTasks hg fuel _ lastErr

end WriteTasks

/-! ## The task a callback writes -/

/-- Changing one element of a list by a function that keeps `h` keeps the list's image by `h`. -/
theorem map_modify_of {α β : Type} {f : α → α} {h : α → β} (hf : ∀ a, h (f a) = h a) :
    ∀ (i : Nat) (l : List α), (l.modify f i).map h = l.map h
  | _, [] => by simp
  | 0, a :: l => by simp [hf]
  | i + 1, a :: l => by simp [map_modify_of hf i l]

/-- The write a callback about task `name` of job `id` makes, as the lookups in `r` find the
task: `u` on that task then `requestPersist`, or nothing. -/
def taskWrite (id : UUID) (name : String) (u : JobTask → JobTask) (r : PipelineRunner) :
    PipelineRunner → PipelineRunner :=
  match r.jobsByID.lookup id with
  | none => fun r' => r'
  | some ptr =>
    match (r.heap ptr).tasks.byName name with
    | none => fun r' => r'
    | some i => writeTasks ptr (·.modify u i)

theorem handleTaskChange_eq_taskWrite (t : TaskChange) (r : PipelineRunner) :
    handleTaskChange t r = taskWrite t.jobID t.name t.update r r := by
  unfold handleTaskChange taskWrite
  cases r.jobsByID.lookup t.jobID with
  | none => rfl
  | some ptr => dsimp only; cases (r.heap ptr).tasks.byName t.name <;> rfl

theorem handleStageChange_eq_taskWrite (s : StageChange) (r : PipelineRunner) :
    handleStageChange s r = taskWrite s.jobID s.name s.update r r := by
  unfold handleStageChange taskWrite
  cases r.jobsByID.lookup s.jobID with
  | none => rfl
  | some ptr => dsimp only; cases (r.heap ptr).tasks.byName s.name <;> rfl

/-- Two changes of list elements by functions that commute commute. -/
theorem modify_comm {α : Type} {f f' : α → α} (h : f ∘ f' = f' ∘ f) (i k : Nat) (l : List α) :
    (l.modify f' k).modify f i = (l.modify f i).modify f' k := by
  by_cases hik : i = k
  · subst hik
    rw [List.modify_modify_eq, List.modify_modify_eq, h]
  · exact (List.modify_modify_ne f' f l (Ne.symm hik))

section TaskWrite

variable {id : UUID} {name : String} {u : JobTask → JobTask} {r r' : PipelineRunner}

/-- The write depends on the state it was looked up in only through the lookups. -/
theorem taskWrite_of_sameLookups (h : SameLookups r r') :
    taskWrite id name u r' = taskWrite id name u r := by
  unfold taskWrite
  rw [h.jobsByID]
  split
  · rfl
  · rw [byName_eq_of_names (h.names _)]

/-- The write finds no task, and writes nothing; or it finds the job of the id and in it the
task of the name, and changes that task by `u`. -/
theorem taskWrite_cases (id : UUID) (name : String) (u : JobTask → JobTask) (r : PipelineRunner) :
    (taskWrite id name u r = (fun x => x) ∧
        ∀ ptr, r.jobsByID.lookup id = some ptr → (r.heap ptr).tasks.byName name = none) ∨
      ∃ ptr i, r.jobsByID.lookup id = some ptr ∧ (r.heap ptr).tasks.byName name = some i ∧
        taskWrite id name u r = writeTasks ptr (·.modify u i) := by
  unfold taskWrite
  cases hl : r.jobsByID.lookup id with
  | none => exact .inl ⟨rfl, fun _ h => nomatch h⟩
  | some ptr =>
    dsimp only
    cases hb : (r.heap ptr).tasks.byName name with
    | none => exact .inl ⟨rfl, fun _ h => by cases h; exact hb⟩
    | some i => exact .inr ⟨ptr, i, rfl, hb, rfl⟩

/-- A write that keeps the names of the tasks keeps the lookups. -/
theorem sameLookups_taskWrite (hu : ∀ jt, (u jt).name = jt.name) :
    SameLookups r' (taskWrite id name u r r') := by
  rcases taskWrite_cases id name u r with ⟨h, -⟩ | ⟨ptr, i, -, -, h⟩ <;> rw [h]
  · exact .refl r'
  · exact (SameLookups.modifyJob r' ptr (f := fun j => { j with tasks := j.tasks.modify u i })
      fun j => map_modify_of hu i j.tasks).trans ⟨rfl, fun _ => rfl⟩

/-- `jobCompleted` commutes with the write of a task that keeps what `buildPipelineGraph` reads. -/
theorem finishExecution_taskWrite
    (hu : ∀ jt, (u jt).name = jt.name ∧ (u jt).toTaskDef = jt.toTaskDef)
    (fuel i : Nat) (lastErr : Option Error) :
    finishExecution env now fuel i lastErr (taskWrite id name u r r') =
      (finishExecution env now fuel i lastErr r').map (taskWrite id name u r) := by
  rcases taskWrite_cases id name u r with ⟨h, -⟩ | ⟨ptr, k, -, -, h⟩ <;> rw [h]
  · exact Option.map_id'.symm
  · refine finishExecution_writeTasks (fun id ts => ?_) fuel i lastErr
    exact map_modify_of (fun jt => by rw [(hu jt).1, (hu jt).2]) _ ts

/-- Writes of two tasks commute, and so do two writes of one task by functions that commute. -/
theorem writeTasks_comm {p q : JobPtr} {g g' : JobTasks → JobTasks} (h : ∀ ts, g (g' ts) = g' (g ts))
    (x : PipelineRunner) :
    writeTasks p g (writeTasks q g' x) = writeTasks q g' (writeTasks p g x) := by
  simp only [writeTasks, PipelineRunner.modifyJob, PipelineRunner.requestPersist,
    PipelineRunner.mk.injEq, and_true]
  funext y
  by_cases hp : y = p <;> by_cases hq : y = q <;> simp_all [Function.update_apply]

/-- Two writes by functions that commute commute, whatever tasks the lookups found. -/
theorem taskWrite_comm {id' : UUID} {name' : String} {u' : JobTask → JobTask}
    (hu : u ∘ u' = u' ∘ u) (x : PipelineRunner) :
    taskWrite id name u r (taskWrite id' name' u' r x) =
      taskWrite id' name' u' r (taskWrite id name u r x) := by
  rcases taskWrite_cases id name u r with ⟨h, -⟩ | ⟨p, i, -, -, h⟩ <;>
    rcases taskWrite_cases id' name' u' r with ⟨h', -⟩ | ⟨q, k, -, -, h'⟩ <;> rw [h, h']
  exact writeTasks_comm (modify_comm hu i k) x

end TaskWrite

/-! ## The callbacks commute -/

theorem TaskChange.update_keeps (t : TaskChange) (jt : JobTask) :
    (t.update jt).name = jt.name ∧ (t.update jt).toTaskDef = jt.toTaskDef := ⟨rfl, rfl⟩

theorem StageChange.update_keeps (s : StageChange) (jt : JobTask) :
    (s.update jt).name = jt.name ∧ (s.update jt).toTaskDef = jt.toTaskDef := ⟨rfl, rfl⟩

/-- A task change and a stage change write different fields. -/
theorem TaskChange.update_comm (t : TaskChange) (s : StageChange) :
    t.update ∘ s.update = s.update ∘ t.update := rfl

section Commute

variable {id : UUID} {name : String} {u : JobTask → JobTask}

/-- A callback's write commutes with `jobCompleted`: the lookups find the same task before and
after. -/
theorem finishExecution_taskWrite_self
    (hu : ∀ jt, (u jt).name = jt.name ∧ (u jt).toTaskDef = jt.toTaskDef) (fuel i : Nat)
    (lastErr : Option Error) (r : PipelineRunner) :
    finishExecution env now fuel i lastErr (taskWrite id name u r r) =
      (finishExecution env now fuel i lastErr r).map fun r' => taskWrite id name u r' r' := by
  rw [finishExecution_taskWrite hu]
  cases hf : finishExecution env now fuel i lastErr r with
  | none => rfl
  | some r' =>
    rw [Option.map_some', Option.map_some', taskWrite_of_sameLookups (SameLookups.finishExecution hf)]

theorem finishExecution_handleTaskChange (fuel i : Nat) (lastErr : Option Error) (t : TaskChange)
    (r : PipelineRunner) :
    finishExecution env now fuel i lastErr (handleTaskChange t r) =
      (finishExecution env now fuel i lastErr r).map (handleTaskChange t) := by
  rw [handleTaskChange_eq_taskWrite, show handleTaskChange t = _ from funext (handleTaskChange_eq_taskWrite t)]
  exact finishExecution_taskWrite_self (TaskChange.update_keeps t) fuel i lastErr r

theorem finishExecution_handleStageChange (fuel i : Nat) (lastErr : Option Error)
    (s : StageChange) (r : PipelineRunner) :
    finishExecution env now fuel i lastErr (handleStageChange s r) =
      (finishExecution env now fuel i lastErr r).map (handleStageChange s) := by
  rw [handleStageChange_eq_taskWrite,
    show handleStageChange s = _ from funext (handleStageChange_eq_taskWrite s)]
  exact finishExecution_taskWrite_self (StageChange.update_keeps s) fuel i lastErr r

theorem handleStageChange_handleTaskChange (s : StageChange) (t : TaskChange)
    (r : PipelineRunner) :
    handleStageChange s (handleTaskChange t r) = handleTaskChange t (handleStageChange s r) := by
  have ht : SameLookups r (handleTaskChange t r) := by
    rw [handleTaskChange_eq_taskWrite]; exact sameLookups_taskWrite (u := t.update) fun _ => rfl
  have hs : SameLookups r (handleStageChange s r) := by
    rw [handleStageChange_eq_taskWrite]; exact sameLookups_taskWrite (u := s.update) fun _ => rfl
  rw [handleStageChange_eq_taskWrite s (handleTaskChange t r), taskWrite_of_sameLookups ht,
    handleTaskChange_eq_taskWrite t (handleStageChange s r), taskWrite_of_sameLookups hs,
    handleTaskChange_eq_taskWrite t r, handleStageChange_eq_taskWrite s r]
  exact taskWrite_comm (TaskChange.update_comm t s).symm r

end Commute

/-! ## Runs of callbacks -/

/-- Where a callback comes from: the task runner's goroutine, the scheduler's, or the goroutine of
a job's execution. -/
inductive Source
  | taskRunner
  | scheduler
  | execution
  deriving DecidableEq, Repr

/-- A callback that takes `r.mx`: `handleTaskChange`, `handleStageChange`, or the `jobCompleted`
of execution `i` when `sched.Schedule` returns. -/
inductive Callback
  | taskChange (t : TaskChange)
  | stageChange (s : StageChange)
  | jobCompleted (now : Time) (fuel i : Nat) (lastErr : Option Error)

/-- The goroutine a callback comes from. -/
def Callback.source : Callback → Source
  | .taskChange _ => .taskRunner
  | .stageChange _ => .scheduler
  | .jobCompleted .. => .execution

/-- One callback under the lock. -/
def Callback.run (env : Env) : Callback → PipelineRunner → Option PipelineRunner
  | .taskChange t, r => some (handleTaskChange t r)
  | .stageChange s, r => some (handleStageChange s r)
  | .jobCompleted now fuel i lastErr, r => finishExecution env now fuel i lastErr r

/-- Callbacks one after the other, in the order `r.mx` lets them in. -/
def runCallbacks (env : Env) : List Callback → PipelineRunner → Option PipelineRunner
  | [], r => some r
  | c :: cs, r => (c.run env r).bind (runCallbacks env cs)

theorem runCallbacks_append (l₁ l₂ : List Callback) (r : PipelineRunner) :
    runCallbacks env (l₁ ++ l₂) r = (runCallbacks env l₁ r).bind (runCallbacks env l₂) := by
  induction l₁ generalizing r with
  | nil => rfl
  | cons c l₁ ih =>
    show (c.run env r).bind (runCallbacks env (l₁ ++ l₂)) = _
    simp only [ih, runCallbacks, Option.bind_assoc]

/-- A write that commutes with each callback of a run commutes with the run. -/
theorem runCallbacks_comm {W : PipelineRunner → PipelineRunner} :
    ∀ {l : List Callback}, (∀ c ∈ l, ∀ r, c.run env (W r) = (c.run env r).map W) →
      ∀ r, runCallbacks env l (W r) = (runCallbacks env l r).map W
  | [], _, _ => rfl
  | c :: l, h, r => by
    simp only [runCallbacks]
    rw [h c (List.mem_cons_self c l) r, Option.bind_map, Option.map_bind]
    exact congrArg _ (funext fun r' =>
      runCallbacks_comm (fun c hc => h c (List.mem_cons_of_mem _ hc)) r')

theorem Callback.run_handleTaskChange {c : Callback} (hc : c.source ≠ .taskRunner) (t : TaskChange)
    (r : PipelineRunner) : c.run env (handleTaskChange t r) = (c.run env r).map (handleTaskChange t) := by
  cases c with
  | taskChange => exact absurd rfl hc
  | stageChange s => exact congrArg some (handleStageChange_handleTaskChange s t r)
  | jobCompleted now fuel i lastErr => exact finishExecution_handleTaskChange fuel i lastErr t r

theorem Callback.run_handleStageChange {c : Callback} (hc : c.source = .execution)
    (s : StageChange) (r : PipelineRunner) :
    c.run env (handleStageChange s r) = (c.run env r).map (handleStageChange s) := by
  cases c with
  | jobCompleted now fuel i lastErr => exact finishExecution_handleStageChange fuel i lastErr s r
  | _ => cases hc

theorem filter_source_cons_of_eq (c : Callback) (src : Source) (l : List Callback)
    (h : c.source = src) :
    (c :: l).filter (·.source = src) = c :: l.filter (·.source = src) :=
  List.filter_cons_of_pos (by simp [h])

theorem filter_source_cons_of_ne (c : Callback) (src : Source) (l : List Callback)
    (h : c.source ≠ src) : (c :: l).filter (·.source = src) = l.filter (·.source = src) :=
  List.filter_cons_of_neg (by simp [h])

theorem source_of_mem_filter {c : Callback} {src : Source} {l : List Callback}
    (hc : c ∈ l.filter (·.source = src)) : c.source = src :=
  of_decide_eq_true (List.mem_filter.1 hc).2

/-- A run gives what the same callbacks give sorted by source: the executions', then the
scheduler's, then the task runner's, each in its order. -/
theorem runCallbacks_bySource (l : List Callback) (r : PipelineRunner) :
    runCallbacks env l r = runCallbacks env (l.filter (·.source = .execution) ++
      l.filter (·.source = .scheduler) ++ l.filter (·.source = .taskRunner)) r := by
  induction l generalizing r with
  | nil => rfl
  | cons c l ih =>
    cases c with
    | jobCompleted now fuel i lastErr =>
      -- an execution's callback is already in place
      set c := Callback.jobCompleted now fuel i lastErr
      rw [filter_source_cons_of_eq c .execution l rfl,
        filter_source_cons_of_ne c .scheduler l nofun, filter_source_cons_of_ne c .taskRunner l nofun]
      exact congrArg _ (funext ih)
    | stageChange s =>
      -- a stage change moves behind the executions' callbacks
      set c := Callback.stageChange s
      rw [filter_source_cons_of_ne c .execution l nofun, filter_source_cons_of_eq c .scheduler l rfl,
        filter_source_cons_of_ne c .taskRunner l nofun]
      show runCallbacks env l (handleStageChange s r) = _
      rw [ih, List.append_assoc, List.append_assoc, runCallbacks_append, runCallbacks_append,
        runCallbacks_comm (fun c hc => Callback.run_handleStageChange (source_of_mem_filter hc) s),
        Option.bind_map]
      rfl
    | taskChange t =>
      -- a task change moves behind the executions' and the scheduler's callbacks
      set c := Callback.taskChange t
      rw [filter_source_cons_of_ne c .execution l nofun, filter_source_cons_of_ne c .scheduler l nofun,
        filter_source_cons_of_eq c .taskRunner l rfl]
      show runCallbacks env l (handleTaskChange t r) = _
      rw [ih, runCallbacks_append (_ ++ _), runCallbacks_comm (fun c hc => ?_), Option.bind_map,
        runCallbacks_append (_ ++ _)]
      · rfl
      · refine Callback.run_handleTaskChange ?_ t
        rcases List.mem_append.1 hc with hc | hc <;> rw [source_of_mem_filter hc] <;> nofun

/-- The state after a run of callbacks depends only on the order of the callbacks of each source:
the task runner's task changes, the scheduler's stage changes and the executions' `jobCompleted`
may interleave in any way. -/
theorem runCallbacks_eq_of_sources {l l' : List Callback}
    (h : ∀ src, l.filter (·.source = src) = l'.filter (·.source = src)) (r : PipelineRunner) :
    runCallbacks env l r = runCallbacks env l' r := by
  rw [runCallbacks_bySource l, runCallbacks_bySource l', h, h, h]

/-- A pipeline `ci` of two tasks, `test` depending on `lint`, whose graphs are all built. -/
def ciEnv : Env :=
  ⟨(∅ : GoMap String PipelineDef).insert "ci" { concurrency := 1, tasks := lintThenTest },
    fun _ => .ok ()⟩

/-- Once job 0 of `ci` runs: a change of its task `lint`, a change of its stage `lint`, and the
return of its execution, in two orders that keep the order of each source's callbacks. -/
theorem runCallbacks_eq_of_sources_ci :
    ∃ r, Reachable ciEnv r ∧
      runCallbacks ciEnv [.taskChange ⟨0, "lint", 5, 0, false, none, 0, false⟩,
          .stageChange ⟨0, "lint", .running⟩, .jobCompleted 6 2 0 none] r =
        runCallbacks ciEnv [.jobCompleted 6 2 0 none, .stageChange ⟨0, "lint", .running⟩,
          .taskChange ⟨0, "lint", 5, 0, false, none, 0, false⟩] r := by
  have h1 : Reachable ciEnv _ := .step .empty (Step.scheduleAsync 0 1 "ci" ⟨""⟩ (.ok 0)
    (fun _ _ ptr h => absurd h (Nat.not_lt_zero _)) rfl)
  exact ⟨_, h1, runCallbacks_eq_of_sources (fun src => by cases src <;> rfl) _⟩

end Prunner

/-
The tasks of a job over whole runs. `ScheduleAsync` gives a new job the tasks `buildJobTasks`
builds from its pipeline's task definitions, one per definition, and no operation adds, drops or
reorders them, or changes their names and definitions. So in every reachable state each job's
tasks are named and defined as `buildJobTasks` gives them, the names pairwise distinct, and
`handleTaskChange` and `handleStageChange`, which find a task by its name, write exactly the task
they name, of the job they name, and nothing else.
-/
import Prunner.Runner.Callbacks

namespace Prunner

variable {env : Env} {now : Time}

/-! ## Names -/

/-- `buildJobTasks` names its tasks by the keys of the definitions, once each. -/
theorem map_name_buildJobTasks_perm (tasks : GoMap String TaskDef) :
    ((buildJobTasks tasks).map (·.name)).Perm tasks.keys := by
  rw [buildJobTasks_eq, sortTasksByDependencies_eq]
  exact ((List.perm_insertionSort _ _).map _).trans (.of_eq (by rw [List.map_map]; rfl))

theorem nodup_map_name_buildJobTasks (tasks : GoMap String TaskDef) :
    ((buildJobTasks tasks).map (·.name)).Nodup :=
  (map_name_buildJobTasks_perm tasks).nodup_iff.2 tasks.keys_nodup

theorem byName_eq_none {jt : JobTasks} {name : String} :
    jt.byName name = none ↔ ∀ t ∈ jt, t.name ≠ name := by
  simp [JobTasks.byName, List.findIdx?_eq_none_iff]

/-- Among tasks of distinct names, changing the task `byName` finds changes the task of that
name and no other. -/
theorem modify_of_byName {f : JobTask → JobTask} {name : String} :
    ∀ {jt : JobTasks} {i : Nat}, (jt.map (·.name)).Nodup → jt.byName name = some i →
      jt.modify f i = jt.map fun t => if t.name = name then f t else t
  | [], _, _, h => by simp [JobTasks.byName] at h
  | t :: jt, i, hnd, h => by
    rw [List.map_cons, List.nodup_cons] at hnd
    by_cases ht : t.name = name
    · have hi : i = 0 := by simpa [JobTasks.byName, ht] using h.symm
      subst hi
      have hrest : ∀ u ∈ jt, u.name ≠ name := fun u hu hu' =>
        hnd.1 (ht ▸ hu' ▸ List.mem_map_of_mem _ hu)
      have hid : jt.map (fun u => if u.name = name then f u else u) = jt := by
        conv_rhs => rw [← List.map_id jt]
        exact List.map_congr_left fun u hu => if_neg (hrest u hu)
      simp only [List.modify_zero_cons, List.map_cons, if_pos ht, hid]
    · obtain ⟨k, hk, rfl⟩ : ∃ k, JobTasks.byName jt name = some k ∧ i = k + 1 := by
        simp only [JobTasks.byName, List.findIdx?_cons, beq_iff_eq, ht, if_false,
          List.findIdx?_succ, Option.map_eq_some'] at h
        exact ⟨_, h.choose_spec.1, h.choose_spec.2.symm⟩
      rw [List.modify_succ_cons, modify_of_byName hnd.2 hk, List.map_cons, if_neg ht]

/-! ## What the operations keep of a job's tasks -/

/-- What the definition of a task fixes of a `jobTask`: its name and its `TaskDef`, all that
`buildPipelineGraph` reads of it. The callbacks write only the rest. -/
def JobTask.spec (t : JobTask) : String × TaskDef := (t.name, t.toTaskDef)

/-- A later state keeps the jobs of the earlier one, with their pipelines and the names and
definitions of their tasks. -/
structure KeepsTasks (r r' : PipelineRunner) : Prop where
  next : r'.next = r.next
  job : ∀ ptr < r.next, (r'.heap ptr).pipeline = (r.heap ptr).pipeline ∧
    (r'.heap ptr).tasks.map JobTask.spec = (r.heap ptr).tasks.map JobTask.spec

namespace KeepsTasks

variable {r r' r'' : PipelineRunner}

theorem refl (r : PipelineRunner) : KeepsTasks r r := ⟨rfl, fun _ _ => ⟨rfl, rfl⟩⟩

theorem trans (h : KeepsTasks r r') (h' : KeepsTasks r' r'') : KeepsTasks r r'' :=
  ⟨h'.next.trans h.next, fun ptr hp =>
    have h1 := h.job ptr hp
    have h2 := h'.job ptr (h.next ▸ hp)
    ⟨h2.1.trans h1.1, h2.2.trans h1.2⟩⟩

theorem of_heap (hn : r'.next = r.next) (hh : r'.heap = r.heap) : KeepsTasks r r' :=
  ⟨hn, fun _ _ => by rw [hh]; exact ⟨rfl, rfl⟩⟩

end KeepsTasks

theorem keepsTasks_modifyJob (r : PipelineRunner) (ptr : JobPtr) {f : PipelineJob → PipelineJob}
    (hf : ∀ j, (f j).pipeline = j.pipeline ∧ (f j).tasks.map JobTask.spec = j.tasks.map JobTask.spec) :
    KeepsTasks r (r.modifyJob ptr f) :=
  ⟨rfl, fun x _ => by
    by_cases hx : x = ptr
    · subst x; simpa using hf (r.heap ptr)
    · simp [PipelineRunner.modifyJob_heap_ne _ hx]⟩

theorem keepsTasks_startJobOk (r : PipelineRunner) (ptr : JobPtr) :
    KeepsTasks r (startJobOk now ptr r) :=
  (keepsTasks_modifyJob r ptr (f := fun j => { j with start := some now }) fun _ => ⟨rfl, rfl⟩).trans
    (.of_heap rfl rfl)

/-- The tasks each job has in `r`, by name and definition: those `buildJobTasks` gives its
pipeline. -/
def TaskSpecs (env : Env) (r : PipelineRunner) : Prop :=
  ∀ ptr < r.next, (r.heap ptr).tasks.map JobTask.spec =
    (buildJobTasks (env.pipelineDef (r.heap ptr).pipeline).tasks).map JobTask.spec

theorem TaskSpecs.keeps {r r' : PipelineRunner} (h : TaskSpecs env r) (hk : KeepsTasks r r') :
    TaskSpecs env r' := fun ptr hp => by
  have hp' : ptr < r.next := hk.next ▸ hp
  rw [(hk.job ptr hp').2, (hk.job ptr hp').1]
  exact h ptr hp'

/-! ## Every operation keeps them -/

section Ops

variable {r r' : PipelineRunner}

/-- The drain's steps keep every job's tasks, so by `DrainKeeps` the drain does. -/
theorem drainKeeps_keepsTasks : DrainKeeps env KeepsTasks :=
  ⟨.refl, .trans, fun _ j r _ => keepsTasks_startJobOk r j,
    fun err j r => keepsTasks_modifyJob r j (f := cancelWith err) fun _ => ⟨rfl, rfl⟩,
    fun _ _ _ => .of_heap rfl rfl, fun _ => .of_heap rfl rfl⟩

theorem TaskSpecs.scheduleAsync {fuel : Nat} {p : String} {opts : ScheduleOpts}
    {newV4 : Except Error UUID} {res : Except Error JobPtr} (h : TaskSpecs env r)
    (hs : scheduleAsync env now fuel p opts newV4 r = some (res, r')) : TaskSpecs env r' := by
  unfold Prunner.scheduleAsync at hs
  split at hs
  · cases hs; exact h
  · rename_i pd hpd
    dsimp only at hs
    split_ifs at hs
    · cases hs; exact h
    · cases hs; exact h
    · cases newV4 with
      | error err => cases hs; exact h
      | ok id =>
        -- the new job's tasks are those of its pipeline
        have h1 : TaskSpecs env (r.register
            { id, pipeline := p, created := now, user := opts.user, tasks := buildJobTasks pd.tasks }) :=
          fun ptr hp => by
            rcases Nat.lt_succ_iff_lt_or_eq.1 hp with hp | rfl
            · rw [PipelineRunner.register_heap_of_lt _ hp]; exact h ptr hp
            · rw [PipelineRunner.register_heap_self]; simp [Env.pipelineDef, hpd]
        dsimp only at hs
        split at hs
        · cases hs; exact h1.keeps (.of_heap rfl rfl)
        · cases hs
          exact h1.keeps ((keepsTasks_modifyJob _ _ (f := fun j => { j with canceled := true })
            fun _ => ⟨rfl, rfl⟩).trans (.of_heap rfl rfl))
        · obtain ⟨r2, h2, hr'⟩ := Option.map_eq_some'.1 hs
          cases hr'
          exact h1.keeps ((drainKeeps_keepsTasks.startJobWith
            (drainKeeps_keepsTasks.startJobsOnWaitList fuel) h2).trans (.of_heap rfl rfl))

theorem TaskSpecs.finishExecution {fuel i : Nat} {lastErr : Option Error} (h : TaskSpecs env r)
    (hf : finishExecution env now fuel i lastErr r = some r') : TaskSpecs env r' := by
  unfold Prunner.finishExecution jobCompleted at hf
  dsimp only at hf
  split at hf
  · cases hf; exact h.keeps (.of_heap rfl rfl)
  · obtain ⟨r2, h2, rfl⟩ := Option.map_eq_some'.1 hf
    refine h.keeps (.trans ?_ ((drainKeeps_keepsTasks.startJobsOnWaitList fuel _ _ _ h2).trans
      (.of_heap rfl rfl)))
    refine .trans ?_ (keepsTasks_modifyJob _ _ fun _ => ⟨rfl, rfl⟩)
    exact .of_heap rfl rfl

/-- A callback's write keeps every job's tasks when its change keeps the name and definition of
the task. -/
theorem keepsTasks_taskWrite {id : UUID} {name : String} {u : JobTask → JobTask}
    (hu : ∀ jt, (u jt).spec = jt.spec) (r : PipelineRunner) : KeepsTasks r (taskWrite id name u r r) := by
  rcases taskWrite_cases id name u r with ⟨h, -⟩ | ⟨ptr, i, -, -, h⟩ <;> rw [h]
  · exact .refl r
  · exact (keepsTasks_modifyJob r ptr (f := fun j => { j with tasks := j.tasks.modify u i })
      fun j => ⟨rfl, map_modify_of hu i j.tasks⟩).trans (.of_heap rfl rfl)

end Ops

/-- In every reachable state each job has the tasks, by name and definition, that `buildJobTasks`
gives its pipeline. -/
theorem Reachable.taskSpecs {r : PipelineRunner} (hr : Reachable env r) : TaskSpecs env r := by
  induction hr with
  | empty => exact fun ptr hp => absurd hp (Nat.not_lt_zero _)
  | step _ hs ih =>
    cases hs with
    | scheduleAsync now fuel p opts newV4 _ h => exact ih.scheduleAsync h
    | jobCompleted now fuel i lastErr job _ h => exact ih.finishExecution h
    | handleTaskChange t =>
      exact ih.keeps (handleTaskChange_eq_taskWrite t _ ▸ keepsTasks_taskWrite (u := t.update) (fun _ => rfl) _)
    | handleStageChange s =>
      exact ih.keeps (handleStageChange_eq_taskWrite s _ ▸ keepsTasks_taskWrite (u := s.update) (fun _ => rfl) _)

theorem TaskSpecs.names {r : PipelineRunner} (h : TaskSpecs env r) {ptr : JobPtr}
    (hp : ptr < r.next) : (r.heap ptr).tasks.map (·.name) =
      (buildJobTasks (env.pipelineDef (r.heap ptr).pipeline).tasks).map (·.name) := by
  simpa only [List.map_map] using congrArg (List.map Prod.fst) (h ptr hp)

theorem TaskSpecs.nodup {r : PipelineRunner} (h : TaskSpecs env r) {ptr : JobPtr}
    (hp : ptr < r.next) : ((r.heap ptr).tasks.map (·.name)).Nodup := by
  rw [h.names hp]; exact nodup_map_name_buildJobTasks _

/-- In every state reached from the empty runner, a job's tasks are named as `buildJobTasks` names
the tasks of its pipeline, in that order, one task for each task definition. -/
theorem jobTasks_perm_pipelineTasks {r : PipelineRunner} (hr : Reachable env r) {ptr : JobPtr}
    (hp : ptr < r.next) :
    (r.heap ptr).tasks.map (·.name) =
        (buildJobTasks (env.pipelineDef (r.heap ptr).pipeline).tasks).map (·.name) ∧
      ((r.heap ptr).tasks.map (·.name)).Perm (env.pipelineDef (r.heap ptr).pipeline).tasks.keys := by
  have h := hr.taskSpecs.names hp
  exact ⟨h, h ▸ map_name_buildJobTasks_perm _⟩

theorem jobTasks_perm_pipelineTasks_ci :
    ∃ r, Reachable ciEnv r ∧ (r.heap 0).pipeline = "ci" ∧
      ((r.heap 0).tasks.map (·.name)).Perm ["test", "lint"] := by
  have h1 : Reachable ciEnv _ := .step .empty (Step.scheduleAsync 0 1 "ci" ⟨""⟩ (.ok 0)
    (fun _ _ ptr h => absurd h (Nat.not_lt_zero _)) rfl)
  obtain ⟨-, hp⟩ := @jobTasks_perm_pipelineTasks _ _ h1 0 (by decide)
  exact ⟨_, h1, by decide, hp.trans (.of_eq (by decide))⟩

/-! ## The callbacks write the task they name -/

/-- The heap a callback about task `name` of job `id` should leave: that task of the job of that
id changed by `f`, every other task and every other job as they were. -/
def withNamedTask (r : PipelineRunner) (id : UUID) (name : String) (f : JobTask → JobTask)
    (x : JobPtr) : PipelineJob :=
  if x < r.next ∧ (r.heap x).id = id then
    { r.heap x with tasks := (r.heap x).tasks.map fun t => if t.name = name then f t else t }
  else r.heap x

section Callbacks

variable {r : PipelineRunner} {id : UUID} {name : String} {f : JobTask → JobTask}

theorem withNamedTask_of_lookup_none (hc : Indexed r) (hl : r.jobsByID.lookup id = none) :
    withNamedTask r id name f = r.heap :=
  funext fun x => if_neg fun hx => by simp [(hc.byID id x).2 hx] at hl

theorem withNamedTask_of_byName_none (hc : Indexed r) {ptr : JobPtr}
    (hl : r.jobsByID.lookup id = some ptr) (hb : (r.heap ptr).tasks.byName name = none) :
    withNamedTask r id name f = r.heap := funext fun x => by
  unfold withNamedTask
  split
  · next hx =>
    obtain rfl : x = ptr := Option.some.inj (((hc.byID id x).2 hx).symm.trans hl)
    have hid : (r.heap x).tasks.map (fun t => if t.name = name then f t else t) =
        (r.heap x).tasks := by
      rw [List.map_congr_left fun t ht => if_neg (byName_eq_none.1 hb t ht), List.map_id']
    rw [hid]
  · rfl

/-- Among distinct task names, changing the task `byName` finds, in the job `jobsByID` finds,
leaves the heap `withNamedTask` describes. -/
theorem heap_modifyJob_byName (hc : Indexed r) {ptr : JobPtr} {i : Nat}
    (hl : r.jobsByID.lookup id = some ptr) (hn : ((r.heap ptr).tasks.map (·.name)).Nodup)
    (hb : (r.heap ptr).tasks.byName name = some i) :
    (r.modifyJob ptr fun j => { j with tasks := j.tasks.modify f i }).heap =
      withNamedTask r id name f := funext fun x => by
  unfold withNamedTask
  by_cases hx : x = ptr
  · subst hx
    rw [if_pos ((hc.byID id x).1 hl), PipelineRunner.modifyJob_heap_self, modify_of_byName hn hb]
  · rw [PipelineRunner.modifyJob_heap_ne _ hx,
      if_neg fun h => hx (Option.some.inj (((hc.byID id x).2 h).symm.trans hl))]

variable (hc : Indexed r) (hn : ∀ ptr < r.next, ((r.heap ptr).tasks.map (·.name)).Nodup)
include hc hn

/-- A callback's write leaves the heap `withNamedTask` describes. -/
theorem taskWrite_heap (u : JobTask → JobTask) :
    (taskWrite id name u r r).heap = withNamedTask r id name u := by
  rcases taskWrite_cases id name u r with ⟨h, hb⟩ | ⟨ptr, i, hl, hb, h⟩ <;> rw [h]
  · cases hl : r.jobsByID.lookup id with
    | none => exact (withNamedTask_of_lookup_none hc hl).symm
    | some ptr => exact (withNamedTask_of_byName_none hc hl (hb ptr hl)).symm
  · exact heap_modifyJob_byName hc hl (hn ptr ((hc.byID _ _).1 hl).1) hb

end Callbacks

/-- In every state reached from the empty runner, `handleTaskChange` and `handleStageChange`
change exactly the task of the name they carry, in the job of the id they carry: that task is
updated, and every other task of that job and every other job stay as they were. When no job
has the id, or the job no task of the name, nothing changes. -/
theorem taskCallbacks_write_named_task {r : PipelineRunner} (hr : Reachable env r)
    (t : TaskChange) (s : StageChange) :
    (handleTaskChange t r).heap = withNamedTask r t.jobID t.name t.update ∧
      (handleStageChange s r).heap = withNamedTask r s.jobID s.name s.update :=
  have hc := hr.wf.core.toIndexed
  have hn := fun _ hp => hr.taskSpecs.nodup hp
  ⟨handleTaskChange_eq_taskWrite t r ▸ taskWrite_heap hc hn t.update,
    handleStageChange_eq_taskWrite s r ▸ taskWrite_heap hc hn s.update⟩

/-- Once job 0 of `ci` is scheduled, a change of its task `lint` with start time 5 leaves that
start time on `lint` alone. -/
theorem taskCallbacks_write_named_task_ci :
    ∃ r, Reachable ciEnv r ∧
      ∀ u ∈ ((handleTaskChange ⟨0, "lint", 5, 0, false, none, 0, false⟩ r).heap 0).tasks,
        u.start = if u.name = "lint" then some 5 else none := by
  have h1 : Reachable ciEnv _ := .step .empty (Step.scheduleAsync 0 1 "ci" ⟨""⟩ (.ok 0)
    (fun _ _ ptr h => absurd h (Nat.not_lt_zero _)) rfl)
  obtain ⟨ht, -⟩ := taskCallbacks_write_named_task h1 ⟨0, "lint", 5, 0, false, none, 0, false⟩
    ⟨0, "lint", .running⟩
  refine ⟨_, h1, fun u hu => ?_⟩
  rw [ht, withNamedTask, if_pos (by decide)] at hu
  obtain ⟨v, hv, rfl⟩ := List.mem_map.1 hu
  have hv0 : v.start = none := by
    change v ∈ buildJobTasks lintThenTest at hv
    rw [buildJobTasks_eq, sortTasksByDependencies_eq] at hv
    obtain ⟨e, -, rfl⟩ := List.mem_map.1 ((List.perm_insertionSort _ _).mem_iff.1 hv)
    rfl
  by_cases hn : v.name = "lint" <;> simp [hn, hv0, TaskChange.update]

end Prunner

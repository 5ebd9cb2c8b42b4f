/-
The invariant of the states a run from the empty runner reaches (`Core` and `Full`): the three
indexes agree, every wait list holds jobs that have neither started nor ended, oldest first, each
started job has exactly one execution, a job never both completes and is canceled, the admission
bounds hold, and executions start in the order jobs were created. Proven here for each primitive
change of the state; `Prunner.Runner.Reachable` assembles the operations from them.
-/
import Prunner.Runner.Drain

namespace Prunner

variable {env : Env} {now : Time}

/-- A job that has neither started nor ended: what `ScheduleAsync` creates. -/
def PipelineJob.Waiting (j : PipelineJob) : Prop :=
  j.start = none ∧ j.completed = false ∧ j.canceled = false

/-- The jobs `startJob` spawned an execution for, oldest first. -/
def PipelineRunner.spawned (r : PipelineRunner) : List JobPtr :=
  r.executions.map (·.job)

/-- The two indexes agree with the heap: `jobsByID` maps the id of each allocated cell to it, and
`jobsByPipeline` lists the allocated cells of each pipeline in order. -/
structure Indexed (r : PipelineRunner) : Prop where
  byID : ∀ id ptr, r.jobsByID.lookup id = some ptr ↔ ptr < r.next ∧ (r.heap ptr).id = id
  byPipeline : ∀ q, r.jobsByPipeline.slice q =
    (List.range r.next).filter fun ptr => (r.heap ptr).pipeline = q

/-- The invariant of reachable states, but for the admission rule's lower bound (`Full`). -/
structure Core (env : Env) (r : PipelineRunner) extends Indexed r : Prop where
  waiting : ∀ q, ∀ ptr ∈ r.waitListByPipeline.slice q,
    ptr < r.next ∧ (r.heap ptr).pipeline = q ∧ (r.heap ptr).Waiting
  sorted : ∀ q, (r.waitListByPipeline.slice q).Pairwise (· < ·)
  spawned : ∀ ptr < r.next, (r.heap ptr).start.isSome ↔ ptr ∈ r.spawned
  execs : ∀ e ∈ r.executions, e.job < r.next ∧ e.done = (r.heap e.job).completed
  spawnedNodup : r.spawned.Nodup
  completedStarted : ∀ ptr < r.next, (r.heap ptr).completed → (r.heap ptr).start.isSome
  canceledUnstarted : ∀ ptr < r.next, (r.heap ptr).canceled → (r.heap ptr).start = none
  bound : ∀ q, (runningJobsCount r q : Int) ≤ max (env.pipelineDef q).concurrency 0
  queueLimit : ∀ q l, (env.pipelineDef q).queueLimit = some l → 0 ≤ l →
    ((r.waitListByPipeline.slice q).length : Int) ≤ l
  replaceOne : ∀ q, (env.pipelineDef q).queueStrategy = .replace →
    (r.waitListByPipeline.slice q).length ≤ 1
  spawnOrder : ∀ q, (r.spawned.filter fun ptr => (r.heap ptr).pipeline = q).Pairwise (· < ·)
  spawnedFirst : ∀ q, ∀ s ∈ r.spawned, ∀ ptr ∈ r.waitListByPipeline.slice q,
    (r.heap s).pipeline = q → s < ptr

/-- No job waits for `q` while `q` has a free slot. -/
def Full (env : Env) (r : PipelineRunner) (q : String) : Prop :=
  r.waitListByPipeline.slice q ≠ [] → (env.pipelineDef q).concurrency ≤ runningJobsCount r q

/-- The invariant of reachable states. -/
structure WF (env : Env) (r : PipelineRunner) : Prop where
  core : Core env r
  full : ∀ q, Full env r q

@[simp] theorem PipelineRunner.spawned_spawn (r : PipelineRunner) (ptr : JobPtr) :
    (r.spawn ptr).spawned = r.spawned ++ [ptr] := by
  simp [PipelineRunner.spawned]

theorem PipelineJob.isRunning_eq_false_of_waiting {j : PipelineJob} (h : j.Waiting) :
    j.isRunning = false := by
  simp [PipelineJob.isRunning, h.1]

theorem empty_wf : WF env .empty where
  core :=
    { byID := fun id ptr => by simp [PipelineRunner.empty]
      byPipeline := fun q => by simp [PipelineRunner.empty]
      waiting := fun q ptr h => by simp [PipelineRunner.empty] at h
      sorted := fun q => by simp [PipelineRunner.empty]
      spawned := fun ptr h => by simp [PipelineRunner.empty] at h
      execs := fun e h => by simp [PipelineRunner.empty] at h
      spawnedNodup := by simp [PipelineRunner.empty, PipelineRunner.spawned]
      completedStarted := fun ptr h => by simp [PipelineRunner.empty] at h
      canceledUnstarted := fun ptr h => by simp [PipelineRunner.empty] at h
      bound := fun q => by simp [PipelineRunner.empty, runningJobsCount]
      queueLimit := fun q l _ hl => by simpa [PipelineRunner.empty] using hl
      replaceOne := fun q _ => by simp [PipelineRunner.empty]
      spawnOrder := fun q => by simp [PipelineRunner.empty, PipelineRunner.spawned]
      spawnedFirst := fun q s hs => by simp [PipelineRunner.empty, PipelineRunner.spawned] at hs }
  full q h := by simp [PipelineRunner.empty] at h

/-! ## Counting running jobs -/

/-- Flipping one member of a list without repeats from `false` to `true` adds one to the count. -/
theorem countP_flip {l : List JobPtr} {a : JobPtr} {p p' : JobPtr → Bool} (hnd : l.Nodup)
    (ha : a ∈ l) (hp : p a = false) (hp' : p' a = true) (h : ∀ x ∈ l, x ≠ a → p' x = p x) :
    l.countP p' = l.countP p + 1 := by
  induction l with
  | nil => cases ha
  | cons x xs ih =>
    rw [List.nodup_cons] at hnd
    simp only [List.countP_cons]
    by_cases hx : x = a
    · subst hx
      have : xs.countP p' = xs.countP p := List.countP_congr fun y hy => by
        rw [h y (List.mem_cons_of_mem _ hy) (ne_of_mem_of_not_mem hy hnd.1)]
      simp [this, hp, hp']
    · rw [ih hnd.2 ((List.mem_cons.1 ha).resolve_left (Ne.symm hx))
        fun y hy hya => h y (List.mem_cons_of_mem _ hy) hya, h x (List.mem_cons_self _ _) hx]
      omega

theorem Indexed.mem_jobsByPipeline {r : PipelineRunner} (hc : Indexed r) {q : String} {ptr : JobPtr} :
    ptr ∈ r.jobsByPipeline.slice q ↔ ptr < r.next ∧ (r.heap ptr).pipeline = q := by
  simp [hc.byPipeline]

theorem Indexed.nodup_jobsByPipeline {r : PipelineRunner} (hc : Indexed r) (q : String) :
    (r.jobsByPipeline.slice q).Nodup := by
  rw [hc.byPipeline]; exact (List.nodup_range _).filter _

/-- A write to a job of another pipeline leaves the count as it is. -/
theorem Indexed.runningJobsCount_modifyJob_of_ne {r : PipelineRunner} (hc : Indexed r) {a : JobPtr}
    {f : PipelineJob → PipelineJob} {q : String} (hq : (r.heap a).pipeline ≠ q) :
    runningJobsCount (r.modifyJob a f) q = runningJobsCount r q := by
  unfold runningJobsCount
  refine List.countP_congr fun x hx => ?_
  have hxa : x ≠ a := by
    rintro rfl; exact hq (hc.mem_jobsByPipeline.1 hx).2
  rw [PipelineRunner.modifyJob_heap_ne _ hxa]

/-- Starting a job adds one to the count of its pipeline and leaves the others. -/
theorem Indexed.runningJobsCount_modifyJob_start {r : PipelineRunner} (hc : Indexed r) {a : JobPtr}
    {f : PipelineJob → PipelineJob} (ha : a < r.next) (hold : (r.heap a).isRunning = false)
    (hnew : (f (r.heap a)).isRunning = true) (q : String) :
    runningJobsCount (r.modifyJob a f) q =
      runningJobsCount r q + if (r.heap a).pipeline = q then 1 else 0 := by
  split
  · unfold runningJobsCount
    simp only [PipelineRunner.modifyJob_jobsByPipeline]
    exact countP_flip (hc.nodup_jobsByPipeline q) (hc.mem_jobsByPipeline.2 ⟨ha, ‹_›⟩) hold
      (by simpa using hnew) fun x _ hx => by rw [PipelineRunner.modifyJob_heap_ne _ hx]
  · exact hc.runningJobsCount_modifyJob_of_ne ‹_›

/-- Ending a running job takes one from the count of its pipeline. -/
theorem Indexed.runningJobsCount_modifyJob_end {r : PipelineRunner} (hc : Indexed r) {a : JobPtr}
    {f : PipelineJob → PipelineJob} (ha : a < r.next) (hold : (r.heap a).isRunning = true)
    (hnew : (f (r.heap a)).isRunning = false) :
    runningJobsCount (r.modifyJob a f) (r.heap a).pipeline + 1 =
      runningJobsCount r (r.heap a).pipeline := by
  unfold runningJobsCount
  simp only [PipelineRunner.modifyJob_jobsByPipeline]
  exact (countP_flip (hc.nodup_jobsByPipeline _) (hc.mem_jobsByPipeline.2 ⟨ha, rfl⟩)
    (by simpa using hnew) hold fun x _ hx => by rw [PipelineRunner.modifyJob_heap_ne _ hx]).symm

theorem Core.spawned_lt {r : PipelineRunner} (hc : Core env r) {s : JobPtr} (hs : s ∈ r.spawned) :
    s < r.next := by
  obtain ⟨e, he, rfl⟩ := List.mem_map.1 hs
  exact (hc.execs e he).1

theorem Core.not_spawned_of_waiting {r : PipelineRunner} (hc : Core env r) {a : JobPtr}
    (ha : a < r.next) (hw : (r.heap a).Waiting) : a ∉ r.spawned := fun h => by
  simpa [hw.1] using (hc.spawned a ha).2 h

/-! ## States that read the same -/

/-- Two states that agree on everything the invariant reads. -/
structure SameView (r r' : PipelineRunner) : Prop where
  id : ∀ x, (r'.heap x).id = (r.heap x).id
  pipeline : ∀ x, (r'.heap x).pipeline = (r.heap x).pipeline
  start : ∀ x, (r'.heap x).start = (r.heap x).start
  completed : ∀ x, (r'.heap x).completed = (r.heap x).completed
  canceled : ∀ x, (r'.heap x).canceled = (r.heap x).canceled
  next : r'.next = r.next
  jobsByID : ∀ id, r'.jobsByID.lookup id = r.jobsByID.lookup id
  jobsByPipeline : ∀ q, r'.jobsByPipeline.slice q = r.jobsByPipeline.slice q
  waitList : ∀ q, r'.waitListByPipeline.slice q = r.waitListByPipeline.slice q
  executions : r'.executions = r.executions

section SameView

variable {r r' : PipelineRunner}

theorem SameView.refl (r : PipelineRunner) : SameView r r :=
  ⟨fun _ => rfl, fun _ => rfl, fun _ => rfl, fun _ => rfl, fun _ => rfl, rfl, fun _ => rfl,
    fun _ => rfl, fun _ => rfl, rfl⟩

theorem SameView.trans {r'' : PipelineRunner} (h : SameView r r') (h' : SameView r' r'') :
    SameView r r'' :=
  ⟨fun x => (h'.id x).trans (h.id x), fun x => (h'.pipeline x).trans (h.pipeline x),
    fun x => (h'.start x).trans (h.start x), fun x => (h'.completed x).trans (h.completed x),
    fun x => (h'.canceled x).trans (h.canceled x), h'.next.trans h.next,
    fun x => (h'.jobsByID x).trans (h.jobsByID x), fun x => (h'.jobsByPipeline x).trans (h.jobsByPipeline x),
    fun x => (h'.waitList x).trans (h.waitList x), h'.executions.trans h.executions⟩

theorem SameView.runningJobsCount_eq (h : SameView r r') (q : String) :
    runningJobsCount r' q = runningJobsCount r q := by
  unfold runningJobsCount
  rw [h.jobsByPipeline]
  exact List.countP_congr fun x _ => by simp [PipelineJob.isRunning, h.start, h.completed, h.canceled]

theorem SameView.waiting_iff (h : SameView r r') (x : JobPtr) :
    (r'.heap x).Waiting ↔ (r.heap x).Waiting := by
  simp [PipelineJob.Waiting, h.start, h.completed, h.canceled]

theorem SameView.spawned_eq (h : SameView r r') : r'.spawned = r.spawned := by
  simp [PipelineRunner.spawned, h.executions]

theorem Core.of_sameView (hc : Core env r) (h : SameView r r') : Core env r' where
  byID id ptr := by rw [h.jobsByID, h.next, h.id]; exact hc.byID id ptr
  byPipeline q := by rw [h.jobsByPipeline, h.next, hc.byPipeline]; simp only [h.pipeline]
  waiting q ptr hp := by
    rw [h.waitList] at hp; rw [h.next, h.pipeline, h.waiting_iff]; exact hc.waiting q ptr hp
  sorted q := by rw [h.waitList]; exact hc.sorted q
  spawned ptr hp := by rw [h.spawned_eq, h.start]; exact hc.spawned ptr (h.next ▸ hp)
  execs e he := by rw [h.next, h.completed]; exact hc.execs e (h.executions ▸ he)
  spawnedNodup := by rw [h.spawned_eq]; exact hc.spawnedNodup
  completedStarted ptr hp := by
    rw [h.completed, h.start]; exact hc.completedStarted ptr (h.next ▸ hp)
  canceledUnstarted ptr hp := by
    rw [h.canceled, h.start]; exact hc.canceledUnstarted ptr (h.next ▸ hp)
  bound q := by rw [h.runningJobsCount_eq]; exact hc.bound q
  queueLimit q l := by rw [h.waitList]; exact hc.queueLimit q l
  replaceOne q := by rw [h.waitList]; exact hc.replaceOne q
  spawnOrder q := by rw [h.spawned_eq]; simp only [h.pipeline]; exact hc.spawnOrder q
  spawnedFirst q s hs ptr hp := by
    rw [h.spawned_eq] at hs; rw [h.waitList] at hp; rw [h.pipeline]; exact hc.spawnedFirst q s hs ptr hp

theorem Full.of_sameView {q : String} (hf : Full env r q) (h : SameView r r') : Full env r' q := by
  unfold Full; rw [h.waitList, h.runningJobsCount_eq]; exact hf

theorem WF.of_sameView (hw : WF env r) (h : SameView r r') : WF env r' :=
  ⟨hw.core.of_sameView h, fun q => (hw.full q).of_sameView h⟩

end SameView

theorem sameView_requestPersist (r : PipelineRunner) : SameView r r.requestPersist :=
  ⟨fun _ => rfl, fun _ => rfl, fun _ => rfl, fun _ => rfl, fun _ => rfl, rfl, fun _ => rfl,
    fun _ => rfl, fun _ => rfl, rfl⟩

/-- Writing a job's tasks, or anything else outside its id, pipeline and lifecycle. -/
theorem sameView_modifyJob (r : PipelineRunner) (ptr : JobPtr) (f : PipelineJob → PipelineJob)
    (hf : ∀ j, (f j).id = j.id ∧ (f j).pipeline = j.pipeline ∧ (f j).start = j.start ∧
      (f j).completed = j.completed ∧ (f j).canceled = j.canceled) :
    SameView r (r.modifyJob ptr f) := by
  refine ⟨fun x => ?_, fun x => ?_, fun x => ?_, fun x => ?_, fun x => ?_, rfl, fun _ => rfl,
    fun _ => rfl, fun _ => rfl, rfl⟩ <;>
    (rw [PipelineRunner.modifyJob_heap]; split <;> simp [*, hf])

/-- Writing a wait list with itself. -/
theorem sameView_setWaitList_self (r : PipelineRunner) (p : String) :
    SameView r (r.setWaitList p (r.waitListByPipeline.slice p)) :=
  ⟨fun _ => rfl, fun _ => rfl, fun _ => rfl, fun _ => rfl, fun _ => rfl, rfl, fun _ => rfl,
    fun _ => rfl, fun q => by
      rw [PipelineRunner.setWaitList_waitListByPipeline, GoMap.slice_insert]; split <;> simp [*],
    rfl⟩

/-! ## Registering a new job -/

section Register

variable {r : PipelineRunner} {j : PipelineJob}

theorem Indexed.runningJobsCount_register (hc : Indexed r) (hj : j.isRunning = false) (q : String) :
    runningJobsCount (r.register j) q = runningJobsCount r q := by
  unfold runningJobsCount
  have old : (r.jobsByPipeline.slice q).countP (fun ptr => ((r.register j).heap ptr).isRunning) =
      (r.jobsByPipeline.slice q).countP (fun ptr => (r.heap ptr).isRunning) :=
    List.countP_congr fun x hx => by
      rw [PipelineRunner.register_heap_of_lt _ (hc.mem_jobsByPipeline.1 hx).1]
  simp only [PipelineRunner.register_jobsByPipeline, GoMap.slice_insert]
  split
  · subst q
    rw [List.countP_append, old]
    simp [hj]
  · exact old

/-- Registering a job with a fresh id keeps the indexes. -/
theorem Indexed.register (hc : Indexed r) (hfresh : ∀ ptr < r.next, (r.heap ptr).id ≠ j.id) :
    Indexed (r.register j) where
  byID id ptr := by
    simp only [PipelineRunner.register_jobsByID, PipelineRunner.register_next, Nat.lt_succ_iff_lt_or_eq]
    by_cases hid : id = j.id
    · subst hid
      rw [AList.lookup_insert]
      constructor
      · rintro ⟨⟩; simp
      · rintro ⟨hp | rfl, he⟩
        · rw [PipelineRunner.register_heap_of_lt _ hp] at he; exact absurd he (hfresh ptr hp)
        · rfl
    · rw [AList.lookup_insert_ne hid, hc.byID]
      constructor
      · rintro ⟨hp, he⟩; exact ⟨.inl hp, by rw [PipelineRunner.register_heap_of_lt _ hp]; exact he⟩
      · rintro ⟨hp | rfl, he⟩
        · rw [PipelineRunner.register_heap_of_lt _ hp] at he; exact ⟨hp, he⟩
        · simp only [PipelineRunner.register_heap_self] at he; exact absurd he.symm hid
  byPipeline q := by
    have old : (List.range r.next).filter (fun ptr => ((r.register j).heap ptr).pipeline = q) =
        (List.range r.next).filter fun ptr => (r.heap ptr).pipeline = q :=
      List.filter_congr fun x hx => by rw [PipelineRunner.register_heap_of_lt _ (List.mem_range.1 hx)]
    simp only [PipelineRunner.register_jobsByPipeline, PipelineRunner.register_next, GoMap.slice_insert,
      List.range_succ, List.filter_append, old, hc.byPipeline]
    split <;> simp [*, eq_comm]

/-- Registering a job with a fresh id that has neither started nor ended keeps the invariant. -/
theorem Core.register (hc : Core env r) (hj : j.Waiting)
    (hfresh : ∀ ptr < r.next, (r.heap ptr).id ≠ j.id) : Core env (r.register j) where
  toIndexed := hc.toIndexed.register hfresh
  waiting q ptr hp := by
    obtain ⟨hlt, hq, hw⟩ := hc.waiting q ptr hp
    simp only [PipelineRunner.register_next, PipelineRunner.register_heap_of_lt _ hlt]
    exact ⟨Nat.lt_succ_of_lt hlt, hq, hw⟩
  sorted := hc.sorted
  spawned ptr hp := by
    rcases Nat.lt_succ_iff_lt_or_eq.1 hp with hp | rfl
    · rw [PipelineRunner.register_heap_of_lt _ hp]; exact hc.spawned ptr hp
    · simp only [PipelineRunner.register_heap_self, hj.1, Option.isSome_none, Bool.false_eq_true,
        false_iff]
      exact fun h => Nat.lt_irrefl _ (hc.spawned_lt h)
  execs e he := by
    obtain ⟨hlt, hd⟩ := hc.execs e he
    rw [PipelineRunner.register_next, PipelineRunner.register_heap_of_lt _ hlt]
    exact ⟨Nat.lt_succ_of_lt hlt, hd⟩
  spawnedNodup := hc.spawnedNodup
  completedStarted ptr hp := by
    rcases Nat.lt_succ_iff_lt_or_eq.1 hp with hp | rfl
    · rw [PipelineRunner.register_heap_of_lt _ hp]; exact hc.completedStarted ptr hp
    · simp [hj.2.1]
  canceledUnstarted ptr hp := by
    rcases Nat.lt_succ_iff_lt_or_eq.1 hp with hp | rfl
    · rw [PipelineRunner.register_heap_of_lt _ hp]; exact hc.canceledUnstarted ptr hp
    · simp [hj.2.2]
  bound q := by
    rw [hc.runningJobsCount_register (PipelineJob.isRunning_eq_false_of_waiting hj)]
    exact hc.bound q
  queueLimit := hc.queueLimit
  replaceOne := hc.replaceOne
  spawnOrder q := by
    have : (r.register j).spawned = r.spawned := rfl
    rw [this, List.filter_congr fun x hx => by rw [PipelineRunner.register_heap_of_lt _ (hc.spawned_lt hx)]]
    exact hc.spawnOrder q
  spawnedFirst q s hs ptr hp := by
    rw [PipelineRunner.register_heap_of_lt _ (hc.spawned_lt hs)]
    exact hc.spawnedFirst q s hs ptr hp

theorem Full.register (hc : Core env r) (hj : j.Waiting) {q : String} (hf : Full env r q) :
    Full env (r.register j) q := by
  unfold Full; rw [hc.runningJobsCount_register (PipelineJob.isRunning_eq_false_of_waiting hj)]
  exact hf

end Register

/-! ## Writing a wait list -/

section WaitList

variable {r : PipelineRunner} {p : String}

theorem slice_setWaitList (r : PipelineRunner) (p q : String) (l : List JobPtr) :
    (r.setWaitList p l).waitListByPipeline.slice q =
      if q = p then l else r.waitListByPipeline.slice q := by
  simp [GoMap.slice_insert]

/-- Dropping jobs from a wait list keeps the invariant. -/
theorem Core.setWaitList_sublist (hc : Core env r) {l : List JobPtr}
    (hl : l.Sublist (r.waitListByPipeline.slice p)) : Core env (r.setWaitList p l) := by
  have sub : ∀ q, ((r.setWaitList p l).waitListByPipeline.slice q).Sublist
      (r.waitListByPipeline.slice q) := fun q => by
    rw [slice_setWaitList]; split
    · subst q; exact hl
    · exact List.Sublist.refl _
  exact
    { byID := hc.byID
      byPipeline := hc.byPipeline
      waiting := fun q ptr hp => hc.waiting q ptr ((sub q).subset hp)
      sorted := fun q => (hc.sorted q).sublist (sub q)
      spawned := hc.spawned
      execs := hc.execs
      spawnedNodup := hc.spawnedNodup
      completedStarted := hc.completedStarted
      canceledUnstarted := hc.canceledUnstarted
      bound := hc.bound
      queueLimit := fun q l' h h0 => le_trans (by exact_mod_cast (sub q).length_le) (hc.queueLimit q l' h h0)
      replaceOne := fun q h => le_trans (sub q).length_le (hc.replaceOne q h)
      spawnOrder := hc.spawnOrder
      spawnedFirst := fun q s hs ptr hp => hc.spawnedFirst q s hs ptr ((sub q).subset hp) }

theorem Full.setWaitList_ne {q : String} (hf : Full env r q) (hq : q ≠ p) (l : List JobPtr) :
    Full env (r.setWaitList p l) q := by
  unfold Full; rw [slice_setWaitList, if_neg hq, runningJobsCount_setWaitList]; exact hf

/-- Appending a job to a wait list: the job is newer than every job waiting or spawned, has
neither started nor ended, belongs to the pipeline, and the queue limit and strategy leave room. -/
theorem Core.enqueue (hc : Core env r) {a : JobPtr} (ha : a < r.next) (hp : (r.heap a).pipeline = p)
    (hw : (r.heap a).Waiting) (hW : ∀ q, ∀ k ∈ r.waitListByPipeline.slice q, k < a)
    (hS : ∀ s ∈ r.spawned, s < a)
    (hlimit : ∀ l, (env.pipelineDef p).queueLimit = some l → 0 ≤ l →
      ((r.waitListByPipeline.slice p).length : Int) < l)
    (hrep : (env.pipelineDef p).queueStrategy = .replace → r.waitListByPipeline.slice p = []) :
    Core env (r.setWaitList p (r.waitListByPipeline.slice p ++ [a])) := by
  have mem : ∀ q ptr, ptr ∈ (r.setWaitList p (r.waitListByPipeline.slice p ++ [a])).waitListByPipeline.slice q ↔
      ptr ∈ r.waitListByPipeline.slice q ∨ (q = p ∧ ptr = a) := fun q ptr => by
    rw [slice_setWaitList]; split <;> simp [*]
  exact
    { byID := hc.byID
      byPipeline := hc.byPipeline
      waiting := fun q ptr hptr => by
        rcases (mem q ptr).1 hptr with h | ⟨rfl, rfl⟩
        · exact hc.waiting q ptr h
        · exact ⟨ha, hp, hw⟩
      sorted := fun q => by
        rw [slice_setWaitList]; split
        · subst q
          exact List.pairwise_append.2 ⟨hc.sorted _, by simp, fun x hx y hy => by
            rw [List.mem_singleton.1 hy]; exact hW _ x hx⟩
        · exact hc.sorted q
      spawned := hc.spawned
      execs := hc.execs
      spawnedNodup := hc.spawnedNodup
      completedStarted := hc.completedStarted
      canceledUnstarted := hc.canceledUnstarted
      bound := hc.bound
      queueLimit := fun q l h h0 => by
        rw [slice_setWaitList]; split
        · subst q; have := hlimit l h h0; simp only [List.length_append, List.length_singleton]; omega
        · exact hc.queueLimit q l h h0
      replaceOne := fun q h => by
        rw [slice_setWaitList]; split
        · subst q; simp [hrep h]
        · exact hc.replaceOne q h
      spawnOrder := hc.spawnOrder
      spawnedFirst := fun q s hs ptr hptr hq => by
        rcases (mem q ptr).1 hptr with h | ⟨rfl, rfl⟩
        · exact hc.spawnedFirst q s hs ptr h hq
        · exact hS s hs }

end WaitList

/-! ## Starting, canceling and completing a job -/

section Lifecycle

variable {r : PipelineRunner} {a : JobPtr}

@[simp] theorem startJobOk_heap_id (x : JobPtr) : ((startJobOk now a r).heap x).id = (r.heap x).id := by
  simp only [startJobOk, PipelineRunner.requestPersist_heap, PipelineRunner.spawn_heap,
    PipelineRunner.modifyJob_heap]; split <;> simp [*]

@[simp] theorem startJobOk_heap_pipeline (x : JobPtr) :
    ((startJobOk now a r).heap x).pipeline = (r.heap x).pipeline := by
  simp only [startJobOk, PipelineRunner.requestPersist_heap, PipelineRunner.spawn_heap,
    PipelineRunner.modifyJob_heap]; split <;> simp [*]

@[simp] theorem startJobOk_heap_completed (x : JobPtr) :
    ((startJobOk now a r).heap x).completed = (r.heap x).completed := by
  simp only [startJobOk, PipelineRunner.requestPersist_heap, PipelineRunner.spawn_heap,
    PipelineRunner.modifyJob_heap]; split <;> simp [*]

@[simp] theorem startJobOk_heap_canceled (x : JobPtr) :
    ((startJobOk now a r).heap x).canceled = (r.heap x).canceled := by
  simp only [startJobOk, PipelineRunner.requestPersist_heap, PipelineRunner.spawn_heap,
    PipelineRunner.modifyJob_heap]; split <;> simp [*]

theorem startJobOk_heap_start (x : JobPtr) :
    ((startJobOk now a r).heap x).start = if x = a then some now else (r.heap x).start := by
  simp only [startJobOk, PipelineRunner.requestPersist_heap, PipelineRunner.spawn_heap,
    PipelineRunner.modifyJob_heap]; split <;> simp [*]

@[simp] theorem startJobOk_spawned : (startJobOk now a r).spawned = r.spawned ++ [a] := by
  simp [PipelineRunner.spawned]

theorem Core.runningJobsCount_startJobOk (hc : Core env r) (ha : a < r.next)
    (hw : (r.heap a).Waiting) (q : String) :
    runningJobsCount (startJobOk now a r) q =
      runningJobsCount r q + if (r.heap a).pipeline = q then 1 else 0 := by
  rw [startJobOk, runningJobsCount_requestPersist, runningJobsCount_spawn]
  exact hc.runningJobsCount_modifyJob_start ha (PipelineJob.isRunning_eq_false_of_waiting hw)
    (by simp [PipelineJob.isRunning, hw.2.1, hw.2.2]) q

/-- Starting a job that has neither started nor ended and waits on no list, while its pipeline
has a free slot, the job being newer than every execution of the pipeline and older than every
job waiting for it. -/
theorem Core.startJobOk (hc : Core env r) (ha : a < r.next) (hw : (r.heap a).Waiting)
    (hnotW : ∀ q, a ∉ r.waitListByPipeline.slice q)
    (hfree : (runningJobsCount r (r.heap a).pipeline : Int) <
      (env.pipelineDef (r.heap a).pipeline).concurrency)
    (hS : ∀ s ∈ r.spawned, (r.heap s).pipeline = (r.heap a).pipeline → s < a)
    (hWa : ∀ k ∈ r.waitListByPipeline.slice (r.heap a).pipeline, a < k) :
    Core env (startJobOk now a r) where
  byID id ptr := by simpa using hc.byID id ptr
  byPipeline q := by simpa using hc.byPipeline q
  waiting q ptr hp := by
    have hpa : ptr ≠ a := fun h => hnotW q (h ▸ hp)
    rw [startJobOk_heap_ne hpa]; exact hc.waiting q ptr hp
  sorted := hc.sorted
  spawned ptr hp := by
    rw [startJobOk_heap_start, startJobOk_spawned, List.mem_append, List.mem_singleton]
    split
    · simp [*]
    · rw [hc.spawned ptr hp]; simp [*]
  execs e he := by
    rw [startJobOk_executions, List.mem_append, List.mem_singleton] at he
    rcases he with he | rfl
    · simpa using hc.execs e he
    · simpa using ⟨ha, hw.2.1⟩
  spawnedNodup := by
    rw [startJobOk_spawned]
    exact List.nodup_append.2 ⟨hc.spawnedNodup, by simp, by
      simpa using hc.not_spawned_of_waiting ha hw⟩
  completedStarted ptr hp := by
    rw [startJobOk_heap_completed, startJobOk_heap_start]
    split
    · simp
    · exact hc.completedStarted ptr hp
  canceledUnstarted ptr hp := by
    rw [startJobOk_heap_canceled, startJobOk_heap_start]
    split
    · subst ptr; simp [hw.2.2]
    · exact hc.canceledUnstarted ptr hp
  bound q := by
    rw [hc.runningJobsCount_startJobOk ha hw]
    have := hc.bound q
    split
    · subst q; push_cast; omega
    · simpa using this
  queueLimit := hc.queueLimit
  replaceOne := hc.replaceOne
  spawnOrder q := by
    simp only [startJobOk_spawned, startJobOk_heap_pipeline, List.filter_append]
    refine List.pairwise_append.2 ⟨hc.spawnOrder q,
      (List.pairwise_singleton _ a).sublist (List.filter_sublist _), ?_⟩
    intro x hx y hy
    simp only [List.filter_singleton, List.mem_filter] at hx hy
    by_cases hq : (r.heap a).pipeline = q
    · simp only [hq, decide_True, cond_true, List.mem_singleton] at hy
      subst y q; exact hS x hx.1 (of_decide_eq_true hx.2)
    · simp [hq] at hy
  spawnedFirst q s hs ptr hp hq := by
    rw [startJobOk_spawned, List.mem_append, List.mem_singleton] at hs
    rw [startJobOk_heap_pipeline] at hq
    rcases hs with hs | rfl
    · exact hc.spawnedFirst q s hs ptr hp hq
    · subst q; exact hWa ptr hp

theorem Full.startJobOk (hc : Core env r) (ha : a < r.next) (hw : (r.heap a).Waiting) {q : String}
    (hf : Full env r q) : Full env (startJobOk now a r) q := by
  unfold Full at *
  rw [startJobOk_waitListByPipeline, hc.runningJobsCount_startJobOk ha hw]
  intro h; have := hf h; push_cast; split <;> omega

theorem Full.modifyJob_of_ne (hc : Core env r) {f : PipelineJob → PipelineJob} {q : String}
    (hq : (r.heap a).pipeline ≠ q) (hf : Full env r q) : Full env (r.modifyJob a f) q := by
  unfold Full at *
  rw [PipelineRunner.modifyJob_waitListByPipeline, hc.runningJobsCount_modifyJob_of_ne hq]
  exact hf

/-- A write to a job that has not started and waits on no list, keeping its id, pipeline, start
and completion: a cancellation. -/
theorem Core.modifyJob_unstarted (hc : Core env r) {f : PipelineJob → PipelineJob}
    (hstart : (r.heap a).start = none) (hnotW : ∀ q, a ∉ r.waitListByPipeline.slice q)
    (hf : ∀ j, (f j).id = j.id ∧ (f j).pipeline = j.pipeline ∧ (f j).start = j.start ∧
      (f j).completed = j.completed) :
    Core env (r.modifyJob a f) := by
  have hid := PipelineRunner.modifyJob_heap_of r a PipelineJob.id fun j => (hf j).1
  have hp := PipelineRunner.modifyJob_heap_of r a PipelineJob.pipeline fun j => (hf j).2.1
  have hs := PipelineRunner.modifyJob_heap_of r a PipelineJob.start fun j => (hf j).2.2.1
  have hd := PipelineRunner.modifyJob_heap_of r a PipelineJob.completed
    fun j => (hf j).2.2.2
  exact
    { byID := fun id ptr => by simpa [hid] using hc.byID id ptr
      byPipeline := fun q => by simpa [hp] using hc.byPipeline q
      waiting := fun q ptr hptr => by
        have hpa : ptr ≠ a := fun h => hnotW q (h ▸ hptr)
        simpa [PipelineRunner.modifyJob_heap_ne _ hpa] using hc.waiting q ptr hptr
      sorted := hc.sorted
      spawned := fun ptr hptr => by simpa [hs] using hc.spawned ptr hptr
      execs := fun e he => by simpa [hd] using hc.execs e he
      spawnedNodup := hc.spawnedNodup
      completedStarted := fun ptr hptr => by simpa [hs, hd] using hc.completedStarted ptr hptr
      canceledUnstarted := fun ptr hptr => by
        rw [hs]
        by_cases hpa : ptr = a
        · subst ptr; exact fun _ => hstart
        · rw [PipelineRunner.modifyJob_heap_ne _ hpa]; exact hc.canceledUnstarted ptr hptr
      bound := fun q => by
        rw [runningJobsCount_modifyJob (by simp [PipelineJob.isRunning, (hf _).2.2.1, hstart])]
        exact hc.bound q
      queueLimit := hc.queueLimit
      replaceOne := hc.replaceOne
      spawnOrder := fun q => by simpa [PipelineRunner.spawned, hp] using hc.spawnOrder q
      spawnedFirst := fun q s hs' ptr hptr => by simpa [hp] using hc.spawnedFirst q s hs' ptr hptr }

theorem Full.modifyJob_unstarted {f : PipelineJob → PipelineJob} {q : String} (hf : Full env r q)
    (hstart : (r.heap a).start = none) (hfs : ∀ j, (f j).start = j.start) :
    Full env (r.modifyJob a f) q := by
  unfold Full at *
  rw [PipelineRunner.modifyJob_waitListByPipeline,
    runningJobsCount_modifyJob (by simp [PipelineJob.isRunning, hfs, hstart])]
  exact hf

/-- Marking the execution of job `c` at `i` done keeps the list of spawned jobs. -/
theorem spawned_setDone {l : List Execution} {i : Nat} {c : JobPtr} (hi : l[i]? = some ⟨c, false⟩) :
    (l.set i ⟨c, true⟩).map (·.job) = l.map (·.job) := by
  ext j : 1
  rw [List.map_set, List.getElem?_set']
  split
  · subst j; simp [hi]
  · rfl

/-- After marking the execution at `i` done, an execution is that one or another job's. -/
theorem mem_setDone {l : List Execution} {i : Nat} {c : JobPtr} (hnd : (l.map (·.job)).Nodup)
    (hi : l[i]? = some ⟨c, false⟩) {e : Execution} (he : e ∈ l.set i ⟨c, true⟩) :
    e = ⟨c, true⟩ ∨ (e ∈ l ∧ e.job ≠ c) := by
  obtain ⟨n, hn, rfl⟩ := List.mem_iff_getElem.1 he
  obtain ⟨hil, hic⟩ := List.getElem?_eq_some_iff.1 hi
  rw [List.getElem_set]
  split
  · exact .inl rfl
  · rename_i hne
    have hn' : n < l.length := by simpa using hn
    refine .inr ⟨List.getElem_mem hn', fun hjob => hne ?_⟩
    have heq := List.inj_on_of_nodup_map hnd (List.getElem_mem hil) (List.getElem_mem hn')
      (by rw [hjob, hic])
    exact (List.Nodup.getElem_inj_iff (List.Nodup.of_map _ hnd)).1 heq

/-- The job of an execution that has not returned is allocated and runs: it started, and is
neither completed nor canceled. -/
theorem Core.running_of_execution (hc : Core env r) {i : Nat} {c : JobPtr}
    (hi : r.executions[i]? = some ⟨c, false⟩) :
    c < r.next ∧ (r.heap c).start.isSome = true ∧ (r.heap c).completed = false ∧
      (r.heap c).canceled = false := by
  have hcs : c ∈ r.spawned := List.mem_map.2 ⟨_, List.getElem?_mem hi, rfl⟩
  have hcn := hc.spawned_lt hcs
  have hstart := (hc.spawned c hcn).2 hcs
  refine ⟨hcn, hstart, (hc.execs _ (List.getElem?_mem hi)).2.symm, ?_⟩
  cases hx : (r.heap c).canceled
  · rfl
  · simp [hc.canceledUnstarted c hcn hx] at hstart

/-- The execution at `i` of job `c` ends: it is marked done and the job completed, keeping its
id, pipeline, start and cancellation. -/
theorem Core.complete (hc : Core env r) {i : Nat} {c : JobPtr}
    (hi : r.executions[i]? = some ⟨c, false⟩) {f : PipelineJob → PipelineJob}
    (hf : ∀ j, (f j).id = j.id ∧ (f j).pipeline = j.pipeline ∧ (f j).start = j.start ∧
      (f j).completed = true ∧ (f j).canceled = j.canceled) :
    Core env ({ r with executions := r.executions.set i ⟨c, true⟩ }.modifyJob c f) := by
  have hcs : c ∈ r.spawned := List.mem_map.2 ⟨_, List.getElem?_mem hi, rfl⟩
  have hcn := hc.spawned_lt hcs
  have hstart := (hc.spawned c hcn).2 hcs
  have hspawned : ({ r with executions := r.executions.set i ⟨c, true⟩ }.modifyJob c f).spawned =
      r.spawned := spawned_setDone hi
  have hid := PipelineRunner.modifyJob_heap_of
    { r with executions := r.executions.set i ⟨c, true⟩ } c PipelineJob.id
    fun j => (hf j).1
  have hp := PipelineRunner.modifyJob_heap_of
    { r with executions := r.executions.set i ⟨c, true⟩ } c PipelineJob.pipeline
    fun j => (hf j).2.1
  have hs := PipelineRunner.modifyJob_heap_of
    { r with executions := r.executions.set i ⟨c, true⟩ } c PipelineJob.start
    fun j => (hf j).2.2.1
  have hx := PipelineRunner.modifyJob_heap_of
    { r with executions := r.executions.set i ⟨c, true⟩ } c PipelineJob.canceled
    fun j => (hf j).2.2.2.2
  have hnotW : ∀ q, c ∉ r.waitListByPipeline.slice q := fun q h => by
    simp [(hc.waiting q c h).2.2.1] at hstart
  dsimp only at hid hp hs hx
  exact
    { byID := fun id ptr => by simpa [hid] using hc.byID id ptr
      byPipeline := fun q => by simpa [hp] using hc.byPipeline q
      waiting := fun q ptr hptr => by
        have hpc : ptr ≠ c := fun h => hnotW q (h ▸ hptr)
        simpa [PipelineRunner.modifyJob_heap_ne _ hpc] using hc.waiting q ptr hptr
      sorted := hc.sorted
      spawned := fun ptr hptr => by rw [hspawned, hs]; exact hc.spawned ptr hptr
      execs := fun e he => by
        rcases mem_setDone hc.spawnedNodup hi he with rfl | ⟨he, hec⟩
        · simpa using ⟨hcn, (hf _).2.2.2.1⟩
        · simpa [PipelineRunner.modifyJob_heap_ne _ hec] using hc.execs e he
      spawnedNodup := hspawned ▸ hc.spawnedNodup
      completedStarted := fun ptr hptr => by
        rw [hs]
        by_cases hpc : ptr = c
        · subst ptr; exact fun _ => hstart
        · rw [PipelineRunner.modifyJob_heap_ne _ hpc]; exact hc.completedStarted ptr hptr
      canceledUnstarted := fun ptr hptr => by rw [hx, hs]; exact hc.canceledUnstarted ptr hptr
      bound := fun q => le_trans (Int.ofNat_le.2 <| runningJobsCount_modifyJob_le
        (by simp [PipelineJob.isRunning, (hf _).2.2.2.1])) (hc.bound q)
      queueLimit := hc.queueLimit
      replaceOne := hc.replaceOne
      spawnOrder := fun q => by rw [hspawned]; simpa [hp] using hc.spawnOrder q
      spawnedFirst := fun q s hs' ptr hptr => by
        rw [hspawned] at hs'; simpa [hp] using hc.spawnedFirst q s hs' ptr hptr }

/-- Completing job `c` leaves `Full` of every other pipeline. -/
theorem Full.complete (hc : Core env r) {c : JobPtr} {l : List Execution} {f : PipelineJob → PipelineJob}
    {q : String} (hq : (r.heap c).pipeline ≠ q) (hf : Full env r q) :
    Full env ({ r with executions := l }.modifyJob c f) q :=
  hf.modifyJob_of_ne hc hq

end Lifecycle

end Prunner

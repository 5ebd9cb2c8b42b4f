/-
What a run keeps of the states it passes. A job keeps its id and pipeline, its start once set,
and completion and cancellation once true; the executions spawned so far stay, in order; and a
wait list loses jobs only from its head and gains only jobs newer than every job before. From
these and the invariant: the lifecycle of a job, what the replace action leaves, and that the
jobs of a wait list start in the order they were put on it.
-/
import Prunner.Runner.Reachable

namespace Prunner

open Relation

variable {env : Env} {now : Time}

/-! ## What a later state keeps -/

/-- A later version of a job: its id and pipeline, its start once set, completion and
cancellation once true. -/
structure PipelineJob.Extends (j j' : PipelineJob) : Prop where
  id : j'.id = j.id
  pipeline : j'.pipeline = j.pipeline
  start : ∀ t, j.start = some t → j'.start = some t
  completed : j.completed → j'.completed
  canceled : j.canceled → j'.canceled

theorem PipelineJob.Extends.refl (j : PipelineJob) : j.Extends j :=
  ⟨rfl, rfl, fun _ h => h, fun h => h, fun h => h⟩

theorem PipelineJob.Extends.trans {j j' j'' : PipelineJob} (h : j.Extends j') (h' : j'.Extends j'') :
    j.Extends j'' :=
  ⟨h'.id.trans h.id, h'.pipeline.trans h.pipeline, fun t ht => h'.start t (h.start t ht),
    fun hc => h'.completed (h.completed hc), fun hc => h'.canceled (h.canceled hc)⟩

/-- A later state: every job of the earlier one, extended, and the executions spawned so far. -/
structure Extends (r r' : PipelineRunner) : Prop where
  next : r.next ≤ r'.next
  job : ∀ ptr < r.next, (r.heap ptr).Extends (r'.heap ptr)
  spawned : r.spawned <+: r'.spawned

/-- Every wait list of the later state is the earlier one less some jobs from its head. -/
def Pops (r r' : PipelineRunner) : Prop :=
  ∀ q, ∃ k, r'.waitListByPipeline.slice q = (r.waitListByPipeline.slice q).drop k

/-- Every wait list of the later state is the earlier one less some jobs from its head, then
jobs newer than every job of the earlier state. -/
def Shifts (r r' : PipelineRunner) : Prop :=
  ∀ q, ∃ k ext, r'.waitListByPipeline.slice q = (r.waitListByPipeline.slice q).drop k ++ ext ∧
    ∀ x ∈ ext, r.next ≤ x

section Extends

variable {r r' r'' : PipelineRunner}

theorem Extends.refl (r : PipelineRunner) : Extends r r :=
  ⟨le_rfl, fun _ _ => .refl _, List.prefix_refl _⟩

theorem Extends.trans (h : Extends r r') (h' : Extends r' r'') : Extends r r'' :=
  ⟨h.next.trans h'.next, fun ptr hp => (h.job ptr hp).trans (h'.job ptr (lt_of_lt_of_le hp h.next)),
    h.spawned.trans h'.spawned⟩

theorem Pops.refl (r : PipelineRunner) : Pops r r := fun _ => ⟨0, rfl⟩

theorem Pops.trans (h : Pops r r') (h' : Pops r' r'') : Pops r r'' := fun q => by
  obtain ⟨k, hk⟩ := h q
  obtain ⟨k', hk'⟩ := h' q
  exact ⟨k + k', by rw [hk', hk, List.drop_drop, Nat.add_comm]⟩

theorem Pops.shifts (h : Pops r r') : Shifts r r' := fun q => by
  obtain ⟨k, hk⟩ := h q
  exact ⟨k, [], by simp [hk], by simp⟩

theorem extends_of_sameView (h : SameView r r') : Extends r r' where
  next := h.next.ge
  job ptr _ := ⟨h.id ptr, h.pipeline ptr, fun _ ht => (h.start ptr).trans ht,
    fun hc => (h.completed ptr).trans hc, fun hc => (h.canceled ptr).trans hc⟩
  spawned := h.spawned_eq ▸ List.prefix_refl _

theorem extends_register (j : PipelineJob) : Extends r (r.register j) where
  next := Nat.le_succ _
  job ptr hp := by rw [PipelineRunner.register_heap_of_lt _ hp]; exact .refl _
  spawned := List.prefix_refl _

theorem extends_setWaitList (p : String) (l : List JobPtr) : Extends r (r.setWaitList p l) :=
  ⟨le_rfl, fun _ _ => .refl _, List.prefix_refl _⟩

theorem extends_modifyJob {a : JobPtr} {f : PipelineJob → PipelineJob}
    (hf : (r.heap a).Extends (f (r.heap a))) : Extends r (r.modifyJob a f) where
  next := le_rfl
  job ptr _ := by
    rw [PipelineRunner.modifyJob_heap]
    split
    · subst ptr; exact hf
    · exact .refl _
  spawned := List.prefix_refl _

theorem extends_startJobOk {a : JobPtr} (hs : (r.heap a).start = none) :
    Extends r (startJobOk now a r) where
  next := le_rfl
  job ptr _ := by
    by_cases hpa : ptr = a
    · subst ptr; exact ⟨by simp, by simp, fun t ht => by simp [hs] at ht, by simp, by simp⟩
    · rw [startJobOk_heap_ne hpa]; exact .refl _
  spawned := by rw [startJobOk_spawned]; exact List.prefix_append _ _

theorem shifts_of_sameView (h : SameView r r') : Shifts r r' := fun q =>
  ⟨0, [], by simp [h.waitList], by simp⟩

/-- A job on a shifted wait list was on it before, or is newer than every job before. -/
theorem Shifts.mem (h : Shifts r r') {q : String} {k : JobPtr}
    (hk : k ∈ r'.waitListByPipeline.slice q) : k ∈ r.waitListByPipeline.slice q ∨ r.next ≤ k := by
  obtain ⟨n, ext, he, hext⟩ := h q
  rw [he, List.mem_append] at hk
  exact hk.imp List.mem_of_mem_drop (hext k)

theorem extends_cancelWith {a : JobPtr} (err : Error) :
    Extends r (r.modifyJob a (cancelWith err)) :=
  extends_modifyJob ⟨rfl, rfl, fun _ => id, id, fun _ => rfl⟩

/-- A drain between two writes that leave the wait lists shifts them. -/
theorem Pops.shifts_of_eq {r1 r2 : PipelineRunner} (h : Pops r1 r2)
    (hW : ∀ q, r1.waitListByPipeline.slice q = r.waitListByPipeline.slice q)
    (hW' : ∀ q, r'.waitListByPipeline.slice q = r2.waitListByPipeline.slice q) : Shifts r r' := fun q => by
  obtain ⟨k, hk⟩ := h q
  exact ⟨k, [], by rw [hW', hk, hW, List.append_nil], by simp⟩

end Extends

/-! ## The drain -/

/-- A drain from a state that keeps `Core` extends it and takes jobs only from the head of the
wait lists. -/
theorem Drains.extends_pops {p : String} {r r' : PipelineRunner} (h : Drains env now p r r')
    (hc : Core env r) : Extends r r' ∧ Pops r r' := by
  induction h with
  | stop _ =>
    exact ⟨extends_setWaitList _ _, fun q => ⟨0, by rw [slice_setWaitList]; split <;> simp [*]⟩⟩
  | @pop r r' j js hw hfree _ _ ih =>
    obtain ⟨-, -, hjw⟩ := hc.waiting p j (by simp [hw])
    obtain ⟨he, hp⟩ := ih (hc.pop hw hfree)
    refine ⟨((extends_startJobOk hjw.1).trans (extends_setWaitList _ _)).trans he,
      Pops.trans (fun q => ⟨if q = p then 1 else 0, ?_⟩) hp⟩
    rw [slice_setWaitList, startJobOk_waitListByPipeline]
    split
    · subst q; simp [hw]
    · rfl

theorem Core.startJobsOnWaitList_extends {p : String} {n : Nat} {r r' : PipelineRunner}
    (hc : Core env r) (h : startJobsOnWaitList env now n p r = some r') : Extends r r' ∧ Pops r r' :=
  (startJobsOnWaitList_drains ((hc.sorted p).imp Nat.ne_of_lt)
    (fun j hj => (hc.waiting p j hj).2.1) h).extends_pops hc

/-! ## One step -/

section Step

variable {r r' : PipelineRunner}

theorem scheduleAsync_extends {fuel : Nat} {p : String} {opts : ScheduleOpts}
    {newV4 : Except Error UUID} {res : Except Error JobPtr} (hw : WF env r)
    (fresh : ∀ id, newV4 = .ok id → ∀ ptr < r.next, (r.heap ptr).id ≠ id)
    (h : scheduleAsync env now fuel p opts newV4 r = some (res, r')) :
    Extends r r' ∧ Shifts r r' := by
  rcases hw.scheduleAsync_cases h with rfl | ⟨j, hid, hjp, hj, ⟨-, rfl⟩ | ⟨d, hd, -, rfl⟩ |
    ⟨-, hWp, ⟨-, rfl⟩ | ⟨err, r3, -, h3, rfl⟩⟩⟩
  · exact ⟨.refl _, (Pops.refl _).shifts⟩
  · -- Queue
    refine ⟨((extends_register j).trans (extends_setWaitList _ _)).trans
      (extends_of_sameView (sameView_requestPersist _)), fun q => ?_⟩
    by_cases hq : q = p
    · subst q; exact ⟨0, [r.next], by simp [slice_setWaitList], by simp⟩
    · exact ⟨0, [], by simp [slice_setWaitList, hq], by simp⟩
  · -- Replace
    obtain ⟨hdn, -, hdw⟩ := hw.core.waiting p d (by simp [hd])
    refine ⟨(((extends_register j).trans (extends_modifyJob ?_)).trans (extends_setWaitList _ _)).trans
      (extends_of_sameView (sameView_requestPersist _)), fun q => ?_⟩
    · rw [PipelineRunner.register_heap_of_lt _ hdn]; exact ⟨rfl, rfl, fun _ => id, id, fun _ => rfl⟩
    · by_cases hq : q = p
      · subst q; exact ⟨1, [r.next], by simp [slice_setWaitList, hd], by simp⟩
      · exact ⟨0, [], by simp [slice_setWaitList, hq], by simp⟩
  · -- Start, the graph built
    exact ⟨((extends_register j).trans (extends_startJobOk (by simpa using hj.1))).trans
      (extends_of_sameView (sameView_requestPersist _)), fun q => ⟨0, [], by simp, by simp⟩⟩
  · -- Start, the graph not built
    have hc1 := (hw.core.register hj (fresh _ hid)).modifyJob_unstarted (a := r.next) (f := cancelWith err)
      (by simpa using hj.1) (fun q hq => lt_irrefl _ (hw.core.waiting q _ hq).1) fun _ => ⟨rfl, rfl, rfl, rfl⟩
    obtain ⟨he, hp⟩ := hc1.startJobsOnWaitList_extends h3
    exact ⟨(((extends_register j).trans (extends_cancelWith err)).trans he).trans
      ((extends_of_sameView (sameView_requestPersist _)).trans (extends_of_sameView (sameView_requestPersist _))),
      hp.shifts_of_eq (fun _ => rfl) fun _ => rfl⟩

theorem Core.finishExecution_extends {fuel i : Nat} {lastErr : Option Error} {c : JobPtr}
    (hc : Core env r) (hi : r.executions[i]? = some ⟨c, false⟩)
    (h : finishExecution env now fuel i lastErr r = some r') : Extends r r' ∧ Shifts r r' := by
  obtain ⟨r3, h3, rfl⟩ := hc.finishExecution_eq hi h
  have hc' := hc.complete hi
    (f := fun j => { j with completed := true, «end» := some now, lastError := lastErr })
    fun _ => ⟨rfl, rfl, rfl, rfl, rfl⟩
  obtain ⟨he, hp⟩ := hc'.startJobsOnWaitList_extends h3
  have hdone : Extends r { r with executions := r.executions.set i ⟨c, true⟩ } :=
    ⟨le_rfl, fun _ _ => .refl _, by simp [PipelineRunner.spawned, spawned_setDone hi]⟩
  exact ⟨((hdone.trans (extends_modifyJob ⟨rfl, rfl, fun _ h => h, fun _ => rfl, fun h => h⟩)).trans he).trans
    (extends_of_sameView (sameView_requestPersist _)), hp.shifts_of_eq (fun _ => rfl) fun _ => rfl⟩

theorem WF.step_extends (hw : WF env r) (h : Step env r r') : Extends r r' ∧ Shifts r r' := by
  cases h with
  | scheduleAsync now fuel p opts newV4 fresh h => exact scheduleAsync_extends hw fresh h
  | jobCompleted now fuel i lastErr job hi h => exact hw.core.finishExecution_extends hi h
  | handleTaskChange t =>
    exact ⟨extends_of_sameView (sameView_handleTaskChange r t), shifts_of_sameView (sameView_handleTaskChange r t)⟩
  | handleStageChange s =>
    exact ⟨extends_of_sameView (sameView_handleStageChange r s),
      shifts_of_sameView (sameView_handleStageChange r s)⟩

end Step

/-! ## Runs -/

/-- Along a run from a reachable state: the later state is reachable and extends the earlier one,
and a job on one of its wait lists was on it in the earlier state or is newer than every job
there. -/
theorem Reachable.steps {r r' : PipelineRunner} (hr : Reachable env r)
    (h : ReflTransGen (Step env) r r') :
    Reachable env r' ∧ Extends r r' ∧ ∀ q k, k ∈ r'.waitListByPipeline.slice q →
      k ∈ r.waitListByPipeline.slice q ∨ r.next ≤ k := by
  induction h with
  | refl => exact ⟨hr, .refl _, fun _ _ hk => .inl hk⟩
  | tail _ hs ih =>
    obtain ⟨hb, he, hmem⟩ := ih
    obtain ⟨he', hsh⟩ := hb.wf.step_extends hs
    refine ⟨hb.step hs, he.trans he', fun q k hk => ?_⟩
    rcases hsh.mem hk with hk | hk
    · exact hmem q k hk
    · exact .inr (le_trans he.next hk)

/-- In a state that keeps `Core`, a canceled job has not started, is not completed, and has no
execution. -/
theorem Core.canceled_unstarted {r : PipelineRunner} (hc : Core env r) {ptr : JobPtr}
    (hn : ptr < r.next) (hx : (r.heap ptr).canceled) :
    (r.heap ptr).start = none ∧ (r.heap ptr).completed = false ∧ ptr ∉ r.spawned := by
  have hs := hc.canceledUnstarted ptr hn hx
  refine ⟨hs, ?_, fun hsp => by simpa [hs] using (hc.spawned ptr hn).2 hsp⟩
  cases hd : (r.heap ptr).completed
  · rfl
  · simpa [hs] using hc.completedStarted ptr hn hd

/-- The lifecycle of a job along every run from a reachable state: its start, once set, is never
set again, and each job gets at most one execution, those spawned staying; completion and
cancellation, once true, stay; no job is both completed and canceled; and a job canceled before
it started never starts, completes, or gets an execution. -/
theorem job_lifecycle {r r' : PipelineRunner} (hr : Reachable env r)
    (h : ReflTransGen (Step env) r r') {ptr : JobPtr} (hptr : ptr < r.next) :
    (∀ t, (r.heap ptr).start = some t → (r'.heap ptr).start = some t) ∧
    r.spawned <+: r'.spawned ∧ r'.spawned.Nodup ∧
    ((r.heap ptr).completed → (r'.heap ptr).completed) ∧
    ((r.heap ptr).canceled → (r'.heap ptr).canceled) ∧
    ¬((r'.heap ptr).completed ∧ (r'.heap ptr).canceled) ∧
    ((r.heap ptr).canceled ∧ (r.heap ptr).start = none →
      (r'.heap ptr).start = none ∧ (r'.heap ptr).completed = false ∧ ptr ∉ r'.spawned) := by
  obtain ⟨hr', he, -⟩ := hr.steps h
  have hj := he.job ptr hptr
  have unstarted := hr'.wf.core.canceled_unstarted (lt_of_lt_of_le hptr he.next)
  exact ⟨hj.start, he.spawned, hr'.wf.core.spawnedNodup, hj.completed, hj.canceled,
    fun ⟨hd, hx⟩ => by simp [(unstarted hx).2.1] at hd, fun ⟨hx, _⟩ => unstarted (hj.canceled hx)⟩

theorem job_lifecycle_build :
    ∃ s u, Reachable buildEnv s ∧ ReflTransGen (Step buildEnv) s u ∧ 1 < s.next ∧
      (u.heap 1).start.isSome ∧ ¬((u.heap 1).completed ∧ (u.heap 1).canceled) := by
  obtain ⟨s, u, hs, hsu, hn, -, -, h1, -⟩ := buildEnv_run
  have h1n : 1 < s.next := by rw [hn]; decide
  exact ⟨s, u, hs, hsu, h1n, h1, (job_lifecycle hs hsu h1n).2.2.2.2.2.1⟩

/-! ## The replace action and the order of starts -/

/-- The queue limit and the replace strategy bound every wait list; after `ScheduleAsync` takes
the replace action, the new job is the only one waiting, and the job it displaced is canceled,
not started and not completed then and in every later state. -/
theorem waitList_bounds {r : PipelineRunner} (hr : Reachable env r) :
    (∀ p l, (env.pipelineDef p).queueLimit = some l → 0 ≤ l →
      ((r.waitListByPipeline.slice p).length : Int) ≤ l) ∧
    (∀ p, (env.pipelineDef p).queueStrategy = .replace → (r.waitListByPipeline.slice p).length ≤ 1) ∧
    ∀ now fuel p opts id res r', (∀ ptr < r.next, (r.heap ptr).id ≠ id) →
      resolveScheduleAction env r p = .replace →
      scheduleAsync env now fuel p opts (.ok id) r = some (res, r') →
      res = .ok r.next ∧ r'.waitListByPipeline.slice p = [r.next] ∧
      ∃ d, r.waitListByPipeline.slice p = [d] ∧ ∀ r'', ReflTransGen (Step env) r' r'' →
        (r''.heap d).canceled = true ∧ (r''.heap d).start = none ∧ (r''.heap d).completed = false := by
  have hc := hr.wf.core
  refine ⟨hc.queueLimit, hc.replaceOne, fun now fuel p opts id res r' fresh hact h => ?_⟩
  obtain ⟨d, hd⟩ := hc.replace_single hact
  obtain ⟨hdn, -, -⟩ := hc.waiting p d (by simp [hd])
  obtain ⟨j, -, -, -, hs⟩ := scheduleAsync_of_replace now fuel opts id hact
  have hr' := hr.step (Step.scheduleAsync now fuel p opts (.ok id) (fun _ h => by cases h; exact fresh) h)
  rw [hs, Option.some.injEq, Prod.mk.injEq] at h
  obtain ⟨rfl, rfl⟩ := h
  refine ⟨rfl, by simp [hd, slice_setWaitList], d, hd, fun r'' h'' => ?_⟩
  obtain ⟨hr'', he, -⟩ := hr'.steps h''
  have hx := (he.job d (Nat.lt_succ_of_lt hdn)).canceled
    (by simp [hd, PipelineRunner.register_heap_of_lt _ hdn])
  obtain ⟨h1, h2, -⟩ := hr''.wf.core.canceled_unstarted (lt_of_lt_of_le (Nat.lt_succ_of_lt hdn) he.next) hx
  exact ⟨hx, h1, h2⟩

theorem waitList_bounds_deploy :
    ∃ r r', Reachable buildEnv r ∧ r.waitListByPipeline.slice "deploy" = [1] ∧
      scheduleAsync buildEnv 2 1 "deploy" ⟨""⟩ (.ok 2) r = some (.ok 2, r') ∧
      r'.waitListByPipeline.slice "deploy" = [2] := by
  have h1 : Reachable buildEnv _ := .step .empty (Step.scheduleAsync 0 1 "deploy" ⟨""⟩ (.ok 0)
    (fun _ _ ptr h => absurd h (Nat.not_lt_zero _)) rfl)
  have h2 := h1.step (Step.scheduleAsync 1 1 "deploy" ⟨""⟩ (.ok 1)
    (fun _ hid => by cases hid; decide) rfl)
  refine ⟨_, _, h2, by decide, rfl, ?_⟩
  exact ((waitList_bounds h2).2.2 2 1 "deploy" ⟨""⟩ 2 _ _ (by decide) (by decide) rfl).2.1

/-- Jobs leave a wait list only from its head, and those joining it are newer than every job
before; jobs of a wait list start in the order they were put on it: if `A` was on the wait list
of `p` before `B`, and both start, `A`'s execution is spawned first. -/
theorem waitList_fifo {s : PipelineRunner} (hs : Reachable env s) (p : String) :
    (∀ s', Step env s s' → ∃ k ext, s'.waitListByPipeline.slice p =
      (s.waitListByPipeline.slice p).drop k ++ ext ∧ ∀ x ∈ ext, s.next ≤ x) ∧
    ∀ t u A B, ReflTransGen (Step env) s t → ReflTransGen (Step env) t u →
      A ∈ s.waitListByPipeline.slice p → B ∈ t.waitListByPipeline.slice p →
      (B ∈ s.waitListByPipeline.slice p → List.Sublist [A, B] (s.waitListByPipeline.slice p)) →
      (u.heap A).start.isSome → (u.heap B).start.isSome → List.Sublist [A, B] u.spawned := by
  refine ⟨fun s' h => (hs.wf.step_extends h).2 p, fun t u A B hst htu hA hB hAB hsA hsB => ?_⟩
  obtain ⟨ht, hest, hmem⟩ := hs.steps hst
  obtain ⟨hu, hetu, -⟩ := ht.steps htu
  obtain ⟨hAn, hAp, -⟩ := hs.wf.core.waiting p A hA
  obtain ⟨hBn, hBp, -⟩ := ht.wf.core.waiting p B hB
  have hlt : A < B := by
    by_cases hBs : B ∈ s.waitListByPipeline.slice p
    · exact List.pairwise_pair.1 ((hs.wf.core.sorted p).sublist (hAB hBs))
    · exact lt_of_lt_of_le hAn ((hmem p B hB).resolve_left hBs)
  have hsu := hest.trans hetu
  have mem : ∀ x, x < u.next → (u.heap x).start.isSome → (u.heap x).pipeline = p →
      x ∈ u.spawned.filter fun ptr => (u.heap ptr).pipeline = p := fun x hx hxs hxp =>
    List.mem_filter.2 ⟨(hu.wf.core.spawned x hx).1 hxs, by simpa using hxp⟩
  exact (pair_sublist_of_pairwise (not_lt.2 hlt.le) hlt.ne (hu.wf.core.spawnOrder p)
    (mem A (lt_of_lt_of_le hAn hsu.next) hsA (((hsu.job A hAn).pipeline).trans hAp))
    (mem B (lt_of_lt_of_le hBn hetu.next) hsB (((hetu.job B hBn).pipeline).trans hBp))).trans
    (List.filter_sublist _)

theorem waitList_fifo_build :
    ∃ s u, Reachable buildEnv s ∧ ReflTransGen (Step buildEnv) s u ∧
      s.waitListByPipeline.slice "build" = [1, 2] ∧ List.Sublist [1, 2] u.spawned := by
  obtain ⟨s, u, hs, hsu, -, -, hw, h1, h2⟩ := buildEnv_run
  exact ⟨s, u, hs, hsu, hw, (waitList_fifo hs "build").2 s u 1 2 .refl hsu (by simp [hw]) (by simp [hw])
    (fun _ => by rw [hw]) h1 h2⟩

end Prunner

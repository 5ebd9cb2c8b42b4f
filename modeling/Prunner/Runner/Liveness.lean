/-
No job waits forever. Take a run of the runner from a reachable state in which every job that
runs completes at a later time: its tasks end and its goroutine calls `jobCompleted`. In such a
run, a job waiting for a pipeline of positive concurrency leaves the wait list at a later time,
started, or canceled by a newer job that replaced it.

The measure is the number of jobs ahead of the waiting job in its wait list. No step increases
it: a wait list loses jobs only at its head and gains only newer jobs at its end. While a job
waits, its pipeline is full, so a job of the pipeline runs. When that job completes, its slot goes
to the head of the wait list, so the measure goes down or the job leaves. Which step completes a
job is read off the admission queue: only `complete` moves a job to completed.
-/
import Prunner.Runner.Waiting
import Prunner.Runner.Progress
import Prunner.Runner.Lifecycle

namespace Prunner

open Relation

/-! ## Only `complete` completes a job -/

namespace Admission

variable {env : Env} {a : Admission} {x : Nat}

theorem status_setStatus {n : Nat} {s : JobStatus} :
    ((a.setStatus n s).jobs x).status = if x = n then s else (a.jobs x).status := by
  by_cases h : x = n
  · subst h; simp [setStatus]
  · simp [setStatus, Function.update_noteq h, h]

theorem status_push {p : String} {b : Bool} :
    ((a.push p b).jobs x).status = if x = a.count then .waiting else (a.jobs x).status := by
  by_cases h : x = a.count
  · subst h; simp [push]
  · simp [push, Function.update_noteq h, h]

theorem completed_of_setStatus {n : Nat} {s : JobStatus} (hs : s ≠ .completed)
    (h : ((a.setStatus n s).jobs x).status = .completed) : (a.jobs x).status = .completed := by
  rw [status_setStatus] at h
  by_cases hx : x = n
  · rw [if_pos hx] at h; exact absurd h hs
  · rwa [if_neg hx] at h

theorem completed_of_push {p : String} {b : Bool} (h : ((a.push p b).jobs x).status = .completed) :
    (a.jobs x).status = .completed := by
  rw [status_push] at h
  by_cases hx : x = a.count
  · rw [if_pos hx] at h; cases h
  · rwa [if_neg hx] at h

theorem completed_of_start {n : Nat} (h : ((a.start n).jobs x).status = .completed) :
    (a.jobs x).status = .completed :=
  completed_of_setStatus (by split <;> nofun) h

theorem completed_of_drain (p : String) :
    ∀ (l : List Nat) (a : Admission), ((drain env p l a).jobs x).status = .completed →
      (a.jobs x).status = .completed
  | [], _, h => h
  | n :: l, a, h => by
    by_cases hf : (a.runningCount p : Int) < (env.pipelineDef p).concurrency
    · rw [drain_cons_of_lt hf] at h; exact completed_of_start (completed_of_drain p l _ h)
    · rw [drain_cons_of_le (le_of_not_lt hf)] at h; exact h

/-- `submit` completes no job. -/
theorem completed_of_submit {p : String} {b : Bool}
    (h : ((a.submit env p b).2.jobs x).status = .completed) : (a.jobs x).status = .completed := by
  unfold Admission.submit at h
  split at h
  · exact h
  · exact h
  · exact completed_of_push h
  · exact completed_of_push (completed_of_setStatus (by nofun) h)
  · exact completed_of_push (completed_of_start h)

/-- `complete n` completes `n` and no other job. -/
theorem completed_of_complete {n : Nat} (h : ((a.complete env n).jobs x).status = .completed) :
    x = n ∨ (a.jobs x).status = .completed := by
  have h' := completed_of_drain _ _ _ h
  rw [status_setStatus] at h'
  split_ifs at h' with hx
  · exact .inl hx
  · exact .inr h'

end Admission

theorem PipelineJob.status_eq_completed {j : PipelineJob} : j.status = .completed ↔ j.completed = true := by
  unfold PipelineJob.status
  split_ifs <;> simp_all

section Runner

variable {env : Env} {s s' : PipelineRunner}

theorem PipelineRunner.completed_iff_toAdmission {a : JobPtr} (ha : a < s.next) :
    (s.heap a).completed = true ↔ ((s.toAdmission env).jobs a).status = .completed := by
  rw [toAdmission_jobs_of_lt ha, ← PipelineJob.status_eq_completed]
  rfl

/-- A step that completes job `a` is the return of an execution of `a`. -/
theorem WF.finishes_of_completes (hw : WF env s) (h : Step env s s') {a : JobPtr} (ha : a < s.next)
    (h0 : (s.heap a).completed = false) (h1 : (s'.heap a).completed = true) :
    ∃ now fuel i lastErr, s.executions[i]? = some ⟨a, false⟩ ∧
      Prunner.finishExecution env now fuel i lastErr s = some s' := by
  have hs0 : ((s.toAdmission env).jobs a).status ≠ .completed := fun h' => by
    rw [← PipelineRunner.completed_iff_toAdmission ha, h0] at h'; cases h'
  have hs1 : ((s'.toAdmission env).jobs a).status = .completed :=
    (PipelineRunner.completed_iff_toAdmission (lt_of_lt_of_le ha (hw.step_extends h).1.next)).1 h1
  cases h with
  | scheduleAsync now fuel p opts newV4 _ hf =>
    rcases hw.scheduleAsync_toAdmission_cases hf with he | ⟨b, -, he⟩ <;> rw [he] at hs1
    · exact absurd hs1 hs0
    · exact absurd (Admission.completed_of_submit hs1) hs0
  | jobCompleted now fuel i lastErr job hi hf =>
    rw [(finishExecution_toAdmission hw hi hf).2.2] at hs1
    rcases Admission.completed_of_complete hs1 with rfl | hs1
    · exact ⟨now, fuel, i, lastErr, hi, hf⟩
    · exact absurd hs1 hs0
  | handleTaskChange t => rw [toAdmission_handleTaskChange] at hs1; exact absurd hs1 hs0
  | handleStageChange st => rw [toAdmission_handleStageChange] at hs1; exact absurd hs1 hs0

/-- A step cancels a job only by the replace action of the job's pipeline. A drain that returns
cancels no job, and the job `ScheduleAsync` cancels when its graph cannot be built is the new one. -/
theorem WF.canceled_of_step (hw : WF env s) (h : Step env s s') {x : JobPtr} (hx : x < s.next)
    (h1 : (s'.heap x).canceled = true) :
    (s.heap x).canceled = true ∨ (env.pipelineDef (s.heap x).pipeline).queueStrategy = .replace := by
  cases h with
  | scheduleAsync now fuel p opts newV4 _ hf =>
    rcases hw.scheduleAsync_cases hf with rfl | ⟨j, -, -, -, ⟨-, rfl⟩ | ⟨d, hd, hact, rfl⟩ |
      ⟨-, hWp, ⟨-, rfl⟩ | ⟨err, r3, -, h3, rfl⟩⟩⟩
    · exact .inl h1
    · -- queue
      exact .inl (by simpa [PipelineRunner.register_heap_of_lt _ hx] using h1)
    · -- replace: the waiting job `d` is canceled
      by_cases hxd : x = d
      · subst hxd
        rw [(hw.core.waiting p x (by simp [hd])).2.1]
        exact .inr (resolveScheduleAction_eq_replace hact).2.2.1
      · exact .inl (by simpa [hxd, PipelineRunner.register_heap_of_lt _ hx] using h1)
    · -- start
      exact .inl (by simpa [startJobOk_heap_ne (Nat.ne_of_lt hx), PipelineRunner.register_heap_of_lt _ hx] using h1)
    · -- start of a job whose graph cannot be built: the drain of an empty wait list
      have hd := (startJobsOnWaitList_drains (by simp [hWp]) (by simp [hWp]) h3).of_nil (by simp [hWp])
      subst hd
      exact .inl (by simpa [Nat.ne_of_lt hx, PipelineRunner.register_heap_of_lt _ hx] using h1)
  | jobCompleted now fuel i lastErr job hi hf =>
    obtain ⟨r3, h3, rfl⟩ := hw.core.finishExecution_eq hi hf
    have hc1 : Core env (completeAt now i job lastErr s) :=
      hw.core.complete hi fun _ => ⟨rfl, rfl, rfl, rfl, rfl⟩
    obtain ⟨k, -, -, -, -, -, hh⟩ := (startJobsOnWaitList_drains ((hc1.sorted _).imp Nat.ne_of_lt)
      (fun j hj => (hc1.waiting _ j hj).2.1) h3).frame
    -- the drain only starts jobs, and the completion of `job` keeps its cancellation
    rw [PipelineRunner.requestPersist_heap, hh] at h1
    have hc : ((completeAt now i job lastErr s).heap x).canceled = true := by split_ifs at h1 <;> exact h1
    rw [completeAt, PipelineRunner.modifyJob_heap] at hc
    split_ifs at hc with hxj
    · exact .inl (hxj ▸ hc)
    · exact .inl hc
  | handleTaskChange t => exact .inl ((sameView_handleTaskChange s t).canceled x ▸ h1)
  | handleStageChange st => exact .inl ((sameView_handleStageChange s st).canceled x ▸ h1)

/-! ## The jobs ahead of a waiting job -/

/-- No step puts a job ahead of `b` in a wait list. -/
theorem WF.countP_ahead_le (hw : WF env s) (h : Step env s s') (p : String) {b : JobPtr}
    (hb : b < s.next) :
    (s'.waitListByPipeline.slice p).countP (· < b) ≤ (s.waitListByPipeline.slice p).countP (· < b) := by
  obtain ⟨k, ext, he, hx⟩ := (hw.step_extends h).2 p
  have hext : ext.countP (· < b) = 0 :=
    List.countP_eq_zero.2 fun x hxm => by simpa using le_trans hb.le (hx x hxm)
  rw [he, List.countP_append, hext, Nat.add_zero]
  exact (List.drop_sublist k _).countP_le _

/-- While a job waits, its pipeline is full, so one of its jobs runs. -/
theorem WF.exists_running (hw : WF env s) {p : String} (hc : 0 < (env.pipelineDef p).concurrency)
    (hne : s.waitListByPipeline.slice p ≠ []) :
    ∃ a, a < s.next ∧ (s.heap a).pipeline = p ∧ (s.heap a).isRunning = true := by
  have hfull := hw.full p hne
  have hpos : 0 < runningJobsCount s p := by omega
  obtain ⟨a, ha, hrun⟩ := List.countP_pos_iff.1 hpos
  obtain ⟨hlt, hap⟩ := hw.core.mem_jobsByPipeline.1 ha
  exact ⟨a, hlt, hap, hrun⟩

/-- When the execution of job `a` returns while `b` waits for the pipeline of `a`, the freed slot
goes to the head of the wait list: `b` leaves it, or fewer jobs wait ahead of `b`. -/
theorem WF.finishExecution_ahead (hw : WF env s) {now : Time} {fuel i : Nat}
    {lastErr : Option Error} {a : JobPtr} (hi : s.executions[i]? = some ⟨a, false⟩)
    (hf : Prunner.finishExecution env now fuel i lastErr s = some s') {b : JobPtr}
    (hb : b ∈ s.waitListByPipeline.slice (s.heap a).pipeline) :
    b ∉ s'.waitListByPipeline.slice (s.heap a).pipeline ∨
      (s'.waitListByPipeline.slice (s.heap a).pipeline).countP (· < b) <
        (s.waitListByPipeline.slice (s.heap a).pipeline).countP (· < b) := by
  obtain ⟨r3, h3, rfl⟩ := hw.core.finishExecution_eq hi hf
  have hc1 : Core env (completeAt now i a lastErr s) :=
    hw.core.complete hi fun _ => ⟨rfl, rfl, rfl, rfl, rfl⟩
  have hd : Drains env now (s.heap a).pipeline (completeAt now i a lastErr s) r3 :=
    startJobsOnWaitList_drains ((hc1.sorted _).imp Nat.ne_of_lt) (fun j hj => (hc1.waiting _ j hj).2.1) h3
  obtain ⟨x, js, hW⟩ := List.exists_cons_of_ne_nil (List.ne_nil_of_mem hb)
  -- the completed job frees a slot
  have hfree : resolveScheduleAction env (completeAt now i a lastErr s) (s.heap a).pipeline = .start :=
    hw.start_completeAt hi (by rw [hW]; exact List.cons_ne_nil _ _)
  -- so the drain pops the head
  cases hd with
  | stop hs =>
    rw [completeAt_waitListByPipeline, hW] at hs
    exact absurd hfree (hs.resolve_left (List.cons_ne_nil _ _))
  | pop hw' _ _ hrest =>
    rw [completeAt_waitListByPipeline, hW, List.cons.injEq] at hw'
    obtain ⟨rfl, rfl⟩ := hw'
    obtain ⟨k, hk, -⟩ := hrest.frame
    have hs := hw.core.sorted (s.heap a).pipeline
    rw [hW, List.pairwise_cons] at hs
    rw [PipelineRunner.requestPersist_waitListByPipeline, hk, PipelineRunner.setWaitList_waitListByPipeline,
      startJobOk_waitListByPipeline, GoMap.slice_insert_self, hW]
    by_cases hbd : b ∈ js.drop k
    · have hxb : x < b := hs.1 b (List.mem_of_mem_drop hbd)
      have hle := (List.drop_sublist k js).countP_le (· < b)
      have hx : (x :: js).countP (· < b) = js.countP (· < b) + 1 := by simp [List.countP_cons, hxb]
      exact .inr (by omega)
    · exact .inl hbd

end Runner

/-! ## Runs -/

/-- A run of the runner from a reachable state, forever. A step may leave the state as it was. -/
structure Run (env : Env) where
  state : Nat → PipelineRunner
  start : Reachable env (state 0)
  step : ∀ t, ReflGen (Step env) (state t) (state (t + 1))

namespace Run

variable {env : Env} (run : Run env)

/-- Every job that runs completes at a later time: its execution returns. -/
def Fair : Prop :=
  ∀ t a, a < (run.state t).next → ((run.state t).heap a).isRunning = true →
    ∃ u, t ≤ u ∧ ((run.state u).heap a).completed = true

theorem step_cases (t : Nat) : run.state (t + 1) = run.state t ∨ Step env (run.state t) (run.state (t + 1)) :=
  (reflGen_iff _ _ _).1 (run.step t)

theorem reachable : ∀ t, Reachable env (run.state t)
  | 0 => run.start
  | t + 1 => ((reachable t).steps (run.step t).to_reflTransGen).1

theorem reflTransGen {t u : Nat} (h : t ≤ u) : ReflTransGen (Step env) (run.state t) (run.state u) := by
  induction h with
  | refl => exact .refl
  | step _ ih => exact ih.trans (run.step _).to_reflTransGen

theorem extends_of_le {t u : Nat} (h : t ≤ u) : Extends (run.state t) (run.state u) :=
  ((run.reachable t).steps (run.reflTransGen h)).2.1

/-- The jobs ahead of `b` in a wait list never grow in number. -/
theorem countP_ahead_le {p : String} {b : JobPtr} {t u : Nat} (hb : b < (run.state t).next) (h : t ≤ u) :
    ((run.state u).waitListByPipeline.slice p).countP (· < b) ≤
      ((run.state t).waitListByPipeline.slice p).countP (· < b) := by
  induction h with
  | refl => exact le_rfl
  | @step u htu ih =>
    refine le_trans ?_ ih
    rcases run.step_cases u with he | hs
    · rw [he]
    · exact (run.reachable u).wf.countP_ahead_le hs p (lt_of_lt_of_le hb (run.extends_of_le htu).next)

/-- A job canceled at `u` and not at `t ≤ u` belongs to a pipeline with the replace strategy. -/
theorem canceled_of_le {x : JobPtr} {t u : Nat} (hx : x < (run.state t).next) (h : t ≤ u)
    (hu : ((run.state u).heap x).canceled = true) :
    ((run.state t).heap x).canceled = true ∨
      (env.pipelineDef ((run.state t).heap x).pipeline).queueStrategy = .replace := by
  induction h with
  | refl => exact .inl hu
  | @step u htu ih =>
    have hxu := lt_of_lt_of_le hx (run.extends_of_le htu).next
    rcases run.step_cases u with he | hs
    · exact ih (he ▸ hu)
    · rcases (run.reachable u).wf.canceled_of_step hs hxu hu with h' | h'
      · exact ih h'
      · rw [((run.extends_of_le htu).job x hx).pipeline] at h'
        exact .inr h'

/-- A job not completed at `t` but completed at `t + d` completed at one step in between: the
return of one of its executions. -/
theorem exists_finish {t : Nat} {a : JobPtr} (ha : a < (run.state t).next)
    (h0 : ((run.state t).heap a).completed = false) :
    ∀ d, ((run.state (t + d)).heap a).completed = true →
      ∃ u now fuel i lastErr, t ≤ u ∧ (run.state u).executions[i]? = some ⟨a, false⟩ ∧
        finishExecution env now fuel i lastErr (run.state u) = some (run.state (u + 1))
  | 0, h => by rw [Nat.add_zero, h0] at h; cases h
  | d + 1, h => by
    cases hd : ((run.state (t + d)).heap a).completed
    · rcases run.step_cases (t + d) with he | hs
      · rw [← Nat.add_assoc, he, hd] at h; cases h
      · obtain ⟨now, fuel, i, lastErr, hi, hf⟩ := (run.reachable _).wf.finishes_of_completes hs
          (lt_of_lt_of_le ha (run.extends_of_le (Nat.le_add_right t d)).next) hd h
        exact ⟨t + d, now, fuel, i, lastErr, Nat.le_add_right t d, hi, hf⟩
    · exact exists_finish ha h0 d hd

/-- In a fair run, a job waiting for a pipeline of positive concurrency leaves its wait list, by
induction on the number of jobs ahead of it. -/
theorem leaves_waitList (fair : run.Fair) {p : String} (hc : 0 < (env.pipelineDef p).concurrency)
    {b : JobPtr} : ∀ n t, ((run.state t).waitListByPipeline.slice p).countP (· < b) = n →
      b ∈ (run.state t).waitListByPipeline.slice p →
      ∃ u, t ≤ u ∧ b ∉ (run.state u).waitListByPipeline.slice p := by
  intro n
  induction n using Nat.strong_induction_on with
  | _ n ih =>
  intro t hn hb
  have hw := (run.reachable t).wf
  have hbn := (hw.core.waiting p b hb).1
  -- a job of the full pipeline runs, and completes at a step `u`
  obtain ⟨a, ha, hap, hrun⟩ := hw.exists_running hc (List.ne_nil_of_mem hb)
  obtain ⟨u', htu', hdone⟩ := fair t a ha hrun
  obtain ⟨u, now, fuel, i, lastErr, htu, hi, hf⟩ := run.exists_finish ha
    ((PipelineJob.isRunning_iff _).1 hrun).2.1 (u' - t) (by rwa [Nat.add_sub_cancel' htu'])
  by_cases hbu : b ∈ (run.state u).waitListByPipeline.slice p
  swap
  · exact ⟨u, htu, hbu⟩
  have hpu : ((run.state u).heap a).pipeline = p := ((run.extends_of_le htu).job a ha).pipeline.trans hap
  rw [← hpu] at hbu
  rcases (run.reachable u).wf.finishExecution_ahead hi hf hbu with h | h <;> rw [hpu] at h
  · exact ⟨u + 1, by omega, h⟩
  · by_cases hb' : b ∈ (run.state (u + 1)).waitListByPipeline.slice p
    · obtain ⟨v, hv, hbv⟩ := ih _ (lt_of_lt_of_le h (hn ▸ run.countP_ahead_le hbn htu)) (u + 1) rfl hb'
      exact ⟨v, by omega, hbv⟩
    · exact ⟨u + 1, by omega, hb'⟩

end Run

/-- No job waits forever. In a run from a reachable state where every job that runs completes
later, a job waiting at time `t` for a pipeline of positive concurrency has, at a later time,
started, or been canceled by a newer job that replaced it, which only the replace strategy does.
So with the queue strategy of a pipeline that is not replace, every job waiting for it starts. -/
theorem waitingJob_starts_unless_replaced {env : Env} (run : Run env) (fair : run.Fair)
    {p : String} (hc : 0 < (env.pipelineDef p).concurrency) {t : Nat} {b : JobPtr}
    (hb : b ∈ (run.state t).waitListByPipeline.slice p) :
    ∃ u, t ≤ u ∧ (((run.state u).heap b).start.isSome = true ∨
      ((run.state u).heap b).canceled = true ∧ (env.pipelineDef p).queueStrategy = .replace) := by
  obtain ⟨u, htu, hbu⟩ := run.leaves_waitList fair hc _ t rfl hb
  have hr := run.reachable u
  obtain ⟨hbn, hbp, hbw⟩ := (run.reachable t).wf.core.waiting p b hb
  have he := run.extends_of_le htu
  have hbn' := lt_of_lt_of_le hbn he.next
  -- `b` no longer waits
  have hnw : ((run.state u).heap b).status ≠ .waiting := fun hs =>
    hbu (((Admission.inv_of_reflTransGen hr.reflTransGen_toAdmission).mem p b).2
      ⟨hbn', by rw [PipelineRunner.toAdmission_jobs_of_lt hbn']; exact (he.job b hbn).pipeline.trans hbp,
        by rw [PipelineRunner.toAdmission_jobs_of_lt hbn']; exact hs⟩)
  rw [ne_eq, PipelineJob.status_eq_waiting] at hnw
  refine ⟨u, htu, ?_⟩
  by_cases hs : ((run.state u).heap b).start.isSome = true
  · exact .inl hs
  · have hnone : ((run.state u).heap b).start = none := Option.not_isSome_iff_eq_none.1 hs
    have hdone : ((run.state u).heap b).completed = false := by
      cases hx : ((run.state u).heap b).completed
      · rfl
      · exact absurd (hr.wf.core.completedStarted b hbn' hx) hs
    have hcan : ((run.state u).heap b).canceled = true := by simpa [hnone, hdone] using hnw
    -- it was not canceled while it waited, so a replace canceled it
    rcases run.canceled_of_le hbn htu hcan with h | h
    · rw [hbw.2.2] at h; cases h
    · exact .inr ⟨hcan, hbp ▸ h⟩

/-- In `buildEnv`, of concurrency one, schedule three jobs of `build`, then let each execution
return in turn and stay. The run is fair, job 2 waits at time 0, and it starts later. -/
theorem waitingJob_starts_unless_replaced_build :
    ∃ run : Run buildEnv, run.Fair ∧ 2 ∈ (run.state 0).waitListByPipeline.slice "build" ∧
      ∃ u, ((run.state u).heap 2).start.isSome = true ∨
        ((run.state u).heap 2).canceled = true ∧ (buildEnv.pipelineDef "build").queueStrategy = .replace := by
  have key : ∀ {α : Type} (x : Option α) (d : α), x.isSome = true → x = some (x.getD d) := by
    intro _ x d h; cases x <;> simp_all
  have keyP : ∀ {α β : Type} (x : Option (α × β)) (d : α × β), x.isSome = true →
      x = some ((x.getD d).1, (x.getD d).2) := fun x d h => key x d h
  -- the states of the run
  let sched (r : PipelineRunner) (now : Time) (id : UUID) : PipelineRunner :=
    ((scheduleAsync buildEnv now 1 "build" ⟨""⟩ (.ok id) r).getD (.ok 0, r)).2
  let fin (r : PipelineRunner) (now : Time) (i : Nat) : PipelineRunner :=
    (finishExecution buildEnv now 2 i none r).getD r
  let s0 := sched (sched (sched .empty 0 0) 1 1) 2 2
  let s1 := fin s0 3 0
  let s2 := fin s1 4 1
  let s3 := fin s2 5 2
  have h1 : Reachable buildEnv (sched .empty 0 0) := .step .empty (Step.scheduleAsync 0 1 "build" ⟨""⟩
    (.ok 0) (fun _ _ ptr h => absurd h (Nat.not_lt_zero _)) (keyP _ _ (by decide)))
  have h2 : Reachable buildEnv (sched (sched .empty 0 0) 1 1) := h1.step (Step.scheduleAsync 1 1 "build"
    ⟨""⟩ (.ok 1) (fun _ hid => by cases hid; decide) (keyP _ _ (by decide)))
  have h0 : Reachable buildEnv s0 := h2.step (Step.scheduleAsync 2 1 "build" ⟨""⟩ (.ok 2)
    (fun _ hid => by cases hid; decide) (keyP _ _ (by decide)))
  have e1 : finishExecution buildEnv 3 2 0 none s0 = some s1 := key _ _ (by decide)
  have e2 : finishExecution buildEnv 4 2 1 none s1 = some s2 := key _ _ (by decide)
  have e3 : finishExecution buildEnv 5 2 2 none s2 = some s3 := key _ _ (by decide)
  let state : Nat → PipelineRunner := fun t =>
    if t = 0 then s0 else if t = 1 then s1 else if t = 2 then s2 else s3
  have hlast : ∀ t, 3 ≤ t → state t = s3 := fun t ht => by
    simp only [state]; rw [if_neg (by omega), if_neg (by omega), if_neg (by omega)]
  have hstep : ∀ t, ReflGen (Step buildEnv) (state t) (state (t + 1))
    | 0 => .single (Step.jobCompleted 3 2 0 none 0 (by decide) e1)
    | 1 => .single (Step.jobCompleted 4 2 1 none 1 (by decide) e2)
    | 2 => .single (Step.jobCompleted 5 2 2 none 2 (by decide) e3)
    | k + 3 => by rw [hlast _ (by omega), hlast _ (by omega)]
  -- every job completes by time 3
  have hn : ∀ t, (state t).next = 3
    | 0 => by decide
    | 1 => by decide
    | 2 => by decide
    | k + 3 => by rw [hlast _ (by omega)]; decide
  have hc : ∀ a < 3, (s3.heap a).completed = true := by decide
  have hfair : ∀ t a, a < (state t).next → ((state t).heap a).isRunning = true →
      ∃ u, t ≤ u ∧ ((state u).heap a).completed = true := fun t a ha _ => by
    rw [hn t] at ha
    refine ⟨t + 3, Nat.le_add_right t 3, ?_⟩
    rw [hlast _ (by omega)]
    exact hc a ha
  have hmem : 2 ∈ (state 0).waitListByPipeline.slice "build" := by
    have h : state 0 = s0 := by simp only [state, if_pos]
    rw [h]; decide
  let run : Run buildEnv := ⟨state, h0, hstep⟩
  exact ⟨run, hfair, hmem, (waitingJob_starts_unless_replaced run hfair (by decide) hmem).imp fun _ h => h.2⟩

end Prunner

/-
`startJobsOnWaitList` on its own. Started on a wait list without repeats whose jobs belong to the
pipeline, it returns exactly when every job it pops has its graph built, and then it `Drains`:
it pops the head and starts it while the pipeline has a free slot. When the graph of a popped job
cannot be built, `startJob` re-enters the drain before the loop has written its copy of the wait
list back: the nested drain finds the same jobs in front of the failed one, starts them again,
fails on the same job, and so never returns. Go's graph builder does not read the job, so from a
state reached from the empty runner no drain gets there (`Prunner.Runner.Graphs`); the failure
needs jobs of one pipeline whose graphs are built differently.
-/
import Prunner.Runner.Ops

namespace Prunner

variable {env : Env} {now : Time}

/-- The jobs whose graph `buildPipelineGraph` builds. -/
def graphBuilds (env : Env) (j : PipelineJob) : Bool :=
  (buildPipelineGraph env j.id j.tasks).isOk

/-- What `startJob` writes when the graph cannot be built. -/
def cancelWith (err : Error) (j : PipelineJob) : PipelineJob :=
  { j with lastError := some err, canceled := true }

/-! ## One `startJob` -/

section StartJob

variable {r : PipelineRunner} {ptr : JobPtr} {drain : String → PipelineRunner → Option PipelineRunner}

theorem startJobWith_of_builds (h : graphBuilds env (r.heap ptr) = true) :
    startJobWith env now drain ptr r = some (startJobOk now ptr r) := by
  unfold graphBuilds at h
  cases hb : buildPipelineGraph env (r.heap ptr).id (r.heap ptr).tasks with
  | error e => simp [hb, Except.isOk, Except.toBool] at h
  | ok g => simp only [startJobWith, hb]

theorem startJobWith_of_fails (now : Time) (drain : String → PipelineRunner → Option PipelineRunner)
    (h : graphBuilds env (r.heap ptr) = false) :
    ∃ err, startJobWith env now drain ptr r =
      (drain (r.heap ptr).pipeline (r.modifyJob ptr (cancelWith err))).map
        PipelineRunner.requestPersist := by
  unfold graphBuilds at h
  cases hb : buildPipelineGraph env (r.heap ptr).id (r.heap ptr).tasks with
  | error e => exact ⟨e, by simp only [startJobWith, hb]; rfl⟩
  | ok g => simp [hb, Except.isOk, Except.toBool] at h

@[simp] theorem startJobOk_heap_self : (startJobOk now ptr r).heap ptr = { r.heap ptr with start := some now } := by
  simp [startJobOk]

theorem startJobOk_heap_ne {q : JobPtr} (h : q ≠ ptr) : (startJobOk now ptr r).heap q = r.heap q := by
  simp [startJobOk, h]

@[simp] theorem startJobOk_next : (startJobOk now ptr r).next = r.next := rfl
@[simp] theorem startJobOk_jobsByID : (startJobOk now ptr r).jobsByID = r.jobsByID := rfl
@[simp] theorem startJobOk_jobsByPipeline : (startJobOk now ptr r).jobsByPipeline = r.jobsByPipeline := rfl
@[simp] theorem startJobOk_waitListByPipeline :
    (startJobOk now ptr r).waitListByPipeline = r.waitListByPipeline := rfl
@[simp] theorem startJobOk_persistRequests : (startJobOk now ptr r).persistRequests = true := rfl
@[simp] theorem startJobOk_executions :
    (startJobOk now ptr r).executions = r.executions ++ [⟨ptr, false⟩] := rfl

theorem startJobOk_setWaitList (p : String) (l : List JobPtr) :
    startJobOk now ptr (r.setWaitList p l) = (startJobOk now ptr r).setWaitList p l := rfl

/-- Starting a job again that has started already changes no count. -/
theorem runningJobsCount_startJobOk_of_started (h : (r.heap ptr).start.isSome) (q : String) :
    runningJobsCount (startJobOk now ptr r) q = runningJobsCount r q := by
  unfold startJobOk
  simp only [runningJobsCount_requestPersist, runningJobsCount_spawn]
  apply runningJobsCount_modifyJob
  simp [PipelineJob.isRunning, h]

theorem runningJobsCount_cancelWith (err : Error) (q : String) :
    runningJobsCount (r.modifyJob ptr (cancelWith err)) q ≤ runningJobsCount r q :=
  runningJobsCount_modifyJob_le fun h => by simp [PipelineJob.isRunning, cancelWith] at h

end StartJob

@[simp] theorem graphBuilds_cancelWith (err : Error) (j : PipelineJob) :
    graphBuilds env (cancelWith err j) = graphBuilds env j := rfl

@[simp] theorem graphBuilds_start (t : Option Time) (j : PipelineJob) :
    graphBuilds env { j with start := t } = graphBuilds env j := rfl

@[simp] theorem PipelineRunner.setWaitList_setWaitList (r : PipelineRunner) (p : String)
    (l l' : List JobPtr) : (r.setWaitList p l).setWaitList p l' = r.setWaitList p l' := by
  simp only [PipelineRunner.setWaitList, AList.insert_insert]

@[simp] theorem resolveScheduleAction_setWaitList_eq_start {r : PipelineRunner} {p q : String}
    {l : List JobPtr} :
    resolveScheduleAction env (r.setWaitList p l) q = .start ↔ resolveScheduleAction env r q = .start := by
  simp only [resolveScheduleAction_eq_start, runningJobsCount_setWaitList]

/-! ## The drain when every graph is built -/

/-- The drain of `p` when every job it pops has its graph built: while the wait list is not
empty and the pipeline has a free slot, pop the head and start it; then write the wait list. -/
inductive Drains (env : Env) (now : Time) (p : String) : PipelineRunner → PipelineRunner → Prop
  | stop {r : PipelineRunner} :
      (r.waitListByPipeline.slice p = [] ∨ resolveScheduleAction env r p ≠ .start) →
      Drains env now p r (r.setWaitList p (r.waitListByPipeline.slice p))
  | pop {r r' : PipelineRunner} {j : JobPtr} {js : List JobPtr} :
      r.waitListByPipeline.slice p = j :: js → resolveScheduleAction env r p = .start →
      graphBuilds env (r.heap j) = true →
      Drains env now p ((startJobOk now j r).setWaitList p js) r' → Drains env now p r r'

/-! ## The re-entered drain never returns -/

/-- A state in which the drain of `p` pops the jobs `A`, all started already and with their graph
built, then `f`, whose graph cannot be built, while the slot stays free. -/
structure Stuck (env : Env) (p : String) (A : List JobPtr) (f : JobPtr) (B : List JobPtr)
    (r : PipelineRunner) : Prop where
  waitList : r.waitListByPipeline.slice p = A ++ f :: B
  started : ∀ j ∈ A, (r.heap j).start.isSome ∧ graphBuilds env (r.heap j) = true
  notMem : f ∉ A
  fails : graphBuilds env (r.heap f) = false
  pipeline : (r.heap f).pipeline = p
  free : resolveScheduleAction env r p = .start

section Stuck

variable {p : String} {A B : List JobPtr} {f : JobPtr} {r : PipelineRunner}

/-- Canceling the failed job `f` in front of which every job has started leaves the drain stuck. -/
theorem stuck_cancelWith (hw : r.waitListByPipeline.slice p = A ++ f :: B)
    (hA : ∀ j ∈ A, (r.heap j).start.isSome ∧ graphBuilds env (r.heap j) = true) (hf : f ∉ A)
    (hfail : graphBuilds env (r.heap f) = false) (hp : (r.heap f).pipeline = p)
    (hfree : resolveScheduleAction env r p = .start) (err : Error) :
    Stuck env p A f B (r.modifyJob f (cancelWith err)) where
  waitList := hw
  started j hj := by
    rw [PipelineRunner.modifyJob_heap_ne _ (ne_of_mem_of_not_mem hj hf)]; exact hA j hj
  notMem := hf
  fails := by simpa using hfail
  pipeline := by simpa [cancelWith] using hp
  free := resolveScheduleAction_start_of_le (runningJobsCount_cancelWith err p) hfree

theorem Stuck.startJobOk {j : JobPtr} (h : Stuck env p A f B r) (hj : j ∈ A) :
    Stuck env p A f B (startJobOk now j r) where
  waitList := h.waitList
  started k hk := by
    by_cases hkj : k = j
    · subst k; simpa using (h.started _ hk).2
    · rw [startJobOk_heap_ne hkj]; exact h.started k hk
  notMem := h.notMem
  fails := by rw [startJobOk_heap_ne (ne_of_mem_of_not_mem hj h.notMem).symm]; exact h.fails
  pipeline := by rw [startJobOk_heap_ne (ne_of_mem_of_not_mem hj h.notMem).symm]; exact h.pipeline
  free := by
    rw [← h.free]
    exact resolveScheduleAction_congr (runningJobsCount_startJobOk_of_started (h.started j hj).1 p) rfl

/-- From a stuck state the drain never returns, whatever its fuel. -/
theorem startJobsOnWaitList_stuck : ∀ (n : Nat) (r : PipelineRunner), Stuck env p A f B r →
    startJobsOnWaitList env now n p r = none
  | 0, _, _ => rfl
  | n + 1, r, h => by
    have loop : ∀ (A' : List JobPtr) (r' : PipelineRunner), (∀ j ∈ A', j ∈ A) →
        Stuck env p A f B r' →
        startJobsOnWaitListLoop env (startJobWith env now (startJobsOnWaitList env now n)) p
          (A' ++ f :: B) r' = none := by
      intro A'
      induction A' with
      | nil =>
        intro r' _ h'
        obtain ⟨err, he⟩ := startJobWith_of_fails now (startJobsOnWaitList env now n) h'.fails
        have hA : ∀ j ∈ A, (r'.heap j).start.isSome ∧ graphBuilds env (r'.heap j) = true := h'.started
        simp only [List.nil_append, startJobsOnWaitListLoop, h'.free, if_true, he, h'.pipeline,
          startJobsOnWaitList_stuck n _
            (stuck_cancelWith h'.waitList hA h'.notMem h'.fails h'.pipeline h'.free err),
          Option.map_none', Option.none_bind]
      | cons j A' ih =>
        intro r' hA h'
        have hj := hA j (List.mem_cons_self _ _)
        simp only [List.cons_append, startJobsOnWaitListLoop, h'.free, if_true,
          startJobWith_of_builds (h'.started j hj).2, Option.some_bind]
        exact ih _ (fun k hk => hA k (List.mem_cons_of_mem _ hk)) (h'.startJobOk hj)
    simp only [startJobsOnWaitList, h.waitList, loop A r (fun _ h => h) h, Option.map_none']

/-- Completing the job of an execution never returns when the drain it starts is stuck. -/
theorem finishExecution_stuck {i : Nat} {c : JobPtr} {lastErr : Option Error}
    (hi : r.executions[i]? = some ⟨c, false⟩) (hl : r.jobsByID.lookup (r.heap c).id = some c)
    (hp : (r.heap c).pipeline = p)
    (h : Stuck env p A f B ({ r with executions := r.executions.set i ⟨c, true⟩ }.modifyJob c
      fun j => { j with completed := true, «end» := some now, lastError := lastErr }))
    (fuel : Nat) : finishExecution env now fuel i lastErr r = none := by
  have he : r.executions.getD i ⟨0, false⟩ = ⟨c, false⟩ := by
    rw [List.getD_eq_getElem?_getD, hi, Option.getD_some]
  unfold finishExecution jobCompleted
  rw [he]
  dsimp only
  rw [hl]
  simp only [PipelineRunner.modifyJob_heap_self, hp, startJobsOnWaitList_stuck fuel _ h, Option.map_none']

end Stuck

/-- `build` of concurrency one with one task, whose graph cannot be built for the job of id 1: a
graph builder whose outcome differs by job, which stands for jobs of one pipeline whose graphs are
built differently. -/
def failEnv : Env :=
  ⟨(∅ : GoMap String PipelineDef).insert "build"
      { tasks := (∅ : GoMap String TaskDef).insert "test" ⟨["make test"], [], false⟩, concurrency := 1 },
    fun stages => if stages.any (·.jobID = 1) then .error "cycle" else .ok ()⟩

/-- Two `ScheduleAsync("build")`: the first job starts, the second waits. When the first
execution ends, `jobCompleted` drains the wait list, the graph of the second job cannot be built,
and `startJob` re-enters the drain on the wait list it has not written back yet: the completion
never returns, whatever the fuel. -/
theorem finishExecution_diverges :
    ∃ r, Reachable failEnv r ∧ r.waitListByPipeline.slice "build" = [1] ∧
      r.executions[0]? = some ⟨0, false⟩ ∧ ∀ fuel, finishExecution failEnv 2 fuel 0 none r = none := by
  have h1 : Reachable failEnv _ := .step .empty (Step.scheduleAsync 0 1 "build" ⟨""⟩ (.ok 0)
    (fun _ _ ptr h => absurd h (Nat.not_lt_zero _)) rfl)
  have h2 := h1.step (Step.scheduleAsync 1 1 "build" ⟨""⟩ (.ok 1)
    (fun _ hid => by cases hid; decide) rfl)
  exact ⟨_, h2, by decide, by decide, fun fuel => finishExecution_stuck (A := []) (f := 1) (B := [])
    (c := 0) (p := "build") (by decide) (by decide) rfl
    ⟨by decide, by simp, by simp, by decide, by decide, by decide⟩ fuel⟩

/-! ## The drain that returns -/

section Returns

variable {p : String}

theorem drains_setWaitList_iff {r r' : PipelineRunner} {l : List JobPtr}
    (hl : r.waitListByPipeline.slice p = l) :
    Drains env now p (r.setWaitList p l) r' ↔ Drains env now p r r' := by
  subst hl
  constructor
  · rintro (⟨h⟩ | ⟨hw, hfree, hb, h⟩)
    · have hs : r.waitListByPipeline.slice p = [] ∨ resolveScheduleAction env r p ≠ .start := by
        simpa using h
      simpa using @Drains.stop env now _ _ hs
    · exact .pop (by simpa using hw) (by simpa using hfree) hb (by simpa [startJobOk_setWaitList] using h)
  · rintro (⟨h⟩ | ⟨hw, hfree, hb, h⟩)
    · have hs : (r.setWaitList p (r.waitListByPipeline.slice p)).waitListByPipeline.slice p = [] ∨
          resolveScheduleAction env (r.setWaitList p (r.waitListByPipeline.slice p)) p ≠ .start := by
        simpa using h
      simpa using @Drains.stop env now _ _ hs
    · exact .pop (by simpa using hw) (by simpa using hfree) hb (by simpa [startJobOk_setWaitList] using h)

/-- The loop over the copy `rest`, run from `r` where the wait list still holds the jobs `A` it
has started before `rest`, ends as the drain from `r` with `rest` written. -/
theorem loop_drains (n : Nat) : ∀ (A rest : List JobPtr) (r : PipelineRunner)
    (res : List JobPtr × PipelineRunner),
    r.waitListByPipeline.slice p = A ++ rest → (A ++ rest).Nodup →
    (∀ j ∈ rest, (r.heap j).pipeline = p) →
    (∀ j ∈ A, (r.heap j).start.isSome ∧ graphBuilds env (r.heap j) = true) →
    startJobsOnWaitListLoop env (startJobWith env now (startJobsOnWaitList env now n)) p rest r =
      some res →
    Drains env now p (r.setWaitList p rest) (res.2.setWaitList p res.1)
  | A, [], r, res, _, _, _, _, h => by
    simp only [startJobsOnWaitListLoop, Option.some.injEq] at h
    subst h
    simpa using @Drains.stop env now p (r.setWaitList p []) (Or.inl (by simp))
  | A, j :: rest, r, res, hw, hnd, hp, hA, h => by
    have hjA : j ∉ A := fun hj => (List.nodup_append.1 hnd).2.2 hj (List.mem_cons_self _ _)
    have hjr : j ∉ rest := (List.nodup_cons.1 (List.nodup_append.1 hnd).2.1).1
    by_cases hfree : resolveScheduleAction env r p = .start
    · cases hb : graphBuilds env (r.heap j) with
      | false =>
        obtain ⟨err, he⟩ := startJobWith_of_fails now (startJobsOnWaitList env now n) hb
        have hpj := hp j (List.mem_cons_self _ _)
        simp only [startJobsOnWaitListLoop, if_pos hfree, he, hpj,
          startJobsOnWaitList_stuck n _ (stuck_cancelWith hw hA hjA hb hpj hfree err),
          Option.map_none', Option.none_bind] at h
        cases h
      | true =>
        simp only [startJobsOnWaitListLoop, if_pos hfree, startJobWith_of_builds hb,
          Option.some_bind] at h
        have ih := loop_drains n (A ++ [j]) rest (startJobOk now j r) res
          (by simpa using hw) (by simpa using hnd)
          (fun k hk => by
            rw [startJobOk_heap_ne (ne_of_mem_of_not_mem hk hjr)]
            exact hp k (List.mem_cons_of_mem _ hk))
          (fun k hk => by
            rcases List.mem_append.1 hk with hk | hk
            · rw [startJobOk_heap_ne (ne_of_mem_of_not_mem hk hjA)]; exact hA k hk
            · rw [List.mem_singleton.1 hk]; simpa using hb)
          h
        exact @Drains.pop env now p _ _ j rest (by simp) (by simpa using hfree) hb
          (by simpa [← startJobOk_setWaitList] using ih)
    · simp only [startJobsOnWaitListLoop, if_neg hfree, Option.some.injEq] at h
      subst h
      simpa using @Drains.stop env now p (r.setWaitList p (j :: rest)) (Or.inr (by simpa using hfree))

/-- A drain whose popped graphs are all built is what the loop returns. -/
theorem loop_of_drains (n : Nat) {rd r' : PipelineRunner} (h : Drains env now p rd r') :
    ∀ (r : PipelineRunner) (rest : List JobPtr), rd = r.setWaitList p rest →
      ∃ res, startJobsOnWaitListLoop env (startJobWith env now (startJobsOnWaitList env now n)) p
        rest r = some res ∧ res.2.setWaitList p res.1 = r' := by
  induction h with
  | stop hs =>
    rename_i rd
    rintro r rest rfl
    simp only [PipelineRunner.setWaitList_waitListByPipeline, GoMap.slice_insert_self, ne_eq,
      resolveScheduleAction_setWaitList_eq_start] at hs
    cases rest with
    | nil => exact ⟨([], r), rfl, by simp⟩
    | cons j rest =>
      simp only [List.cons_ne_nil, false_or] at hs
      exact ⟨(j :: rest, r), by simp [startJobsOnWaitListLoop, hs], by simp⟩
  | pop hw hfree hb _ ih =>
    rename_i rd r' j js _
    rintro r rest rfl
    simp only [PipelineRunner.setWaitList_waitListByPipeline, GoMap.slice_insert_self] at hw
    subst hw
    simp only [resolveScheduleAction_setWaitList_eq_start] at hfree
    obtain ⟨res, h1, h2⟩ := ih (startJobOk now j r) js (by simp [← startJobOk_setWaitList])
    refine ⟨res, ?_, h2⟩
    rw [startJobsOnWaitListLoop, if_pos hfree, startJobWith_of_builds (by simpa using hb),
      Option.some_bind]
    exact h1

/-- Started on a wait list without repeats whose jobs belong to `p`, the drain returns exactly
when it `Drains`. -/
theorem startJobsOnWaitList_drains {r r' : PipelineRunner} {n : Nat}
    (hnd : (r.waitListByPipeline.slice p).Nodup)
    (hp : ∀ j ∈ r.waitListByPipeline.slice p, (r.heap j).pipeline = p)
    (h : startJobsOnWaitList env now n p r = some r') : Drains env now p r r' := by
  cases n with
  | zero => cases h
  | succ n =>
    simp only [startJobsOnWaitList, Option.map_eq_some'] at h
    obtain ⟨res, hres, rfl⟩ := h
    exact (drains_setWaitList_iff rfl).1
      (loop_drains n [] _ r res (by simp) (by simpa using hnd) hp (by simp) hres)

theorem startJobsOnWaitList_of_drains {r r' : PipelineRunner} (h : Drains env now p r r')
    (n : Nat) : startJobsOnWaitList env now (n + 1) p r = some r' := by
  obtain ⟨res, h1, h2⟩ := loop_of_drains n ((drains_setWaitList_iff rfl).2 h) r _ rfl
  simp only [startJobsOnWaitList, h1, Option.map_some', h2]

/-- A drain that returns starts a prefix of the wait list, drops it, and changes nothing else
that the indexes read. -/
theorem Drains.frame {r r' : PipelineRunner} (h : Drains env now p r r') :
    ∃ k, r'.waitListByPipeline.slice p = (r.waitListByPipeline.slice p).drop k ∧
      (∀ q, q ≠ p → r'.waitListByPipeline.slice q = r.waitListByPipeline.slice q) ∧
      r'.next = r.next ∧ r'.jobsByID = r.jobsByID ∧ r'.jobsByPipeline = r.jobsByPipeline ∧
      ∀ x, r'.heap x = if x ∈ (r.waitListByPipeline.slice p).take k
        then { r.heap x with start := some now } else r.heap x := by
  induction h with
  | stop =>
    exact ⟨0, by simp, fun q hq => by simp [GoMap.slice_insert_ne _ _ hq], rfl, rfl, rfl, by simp⟩
  | @pop r r' j js hw _ _ _ ih =>
    obtain ⟨k, hp, hq, hn, hid, hjp, hh⟩ := ih
    refine ⟨k + 1, by simpa [hw] using hp, fun q hne => by simpa [GoMap.slice_insert_ne _ _ hne] using hq q hne,
      hn, hid, hjp, fun x => ?_⟩
    rw [hh x, hw, List.take_succ_cons]
    by_cases hx : x = j
    · subst x; simp
    · simp [hx, startJobOk_heap_ne hx]

/-- The drain of a wait list without repeats whose graphs are all built returns. -/
theorem drains_exists : ∀ (l : List JobPtr) (r : PipelineRunner), r.waitListByPipeline.slice p = l →
    l.Nodup → (∀ j ∈ l, graphBuilds env (r.heap j) = true) → ∃ r', Drains env now p r r'
  | [], _, hw, _, _ => ⟨_, .stop (.inl hw)⟩
  | j :: js, r, hw, hnd, hb => by
    by_cases hfree : resolveScheduleAction env r p = .start
    · have hj := (List.nodup_cons.1 hnd).1
      obtain ⟨r', h⟩ := drains_exists js ((startJobOk now j r).setWaitList p js) (by simp)
        (List.nodup_cons.1 hnd).2 fun k hk => by
          rw [PipelineRunner.setWaitList_heap, startJobOk_heap_ne (ne_of_mem_of_not_mem hk hj)]
          exact hb k (List.mem_cons_of_mem _ hk)
      exact ⟨r', .pop hw hfree (hb j (List.mem_cons_self _ _)) h⟩
    · exact ⟨_, .stop (.inr hfree)⟩

/-- The drain of a wait list without repeats returns when its pipeline has no slot at all, or
when every job on the list has its graph built. -/
theorem drains_exists_of_builds {r : PipelineRunner} (hnd : (r.waitListByPipeline.slice p).Nodup)
    (hb : 0 < (env.pipelineDef p).concurrency →
      ∀ j ∈ r.waitListByPipeline.slice p, graphBuilds env (r.heap j) = true) :
    ∃ r', Drains env now p r r' := by
  by_cases hC : 0 < (env.pipelineDef p).concurrency
  · exact drains_exists _ r rfl hnd (hb hC)
  · exact ⟨_, .stop (.inr (by rw [ne_eq, resolveScheduleAction_eq_start]; omega))⟩

end Returns

end Prunner

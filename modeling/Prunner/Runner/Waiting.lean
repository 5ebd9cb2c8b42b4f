/-
No job waits outside a wait list. In every state a run of the admission queue reaches, the wait
list of each pipeline is the list of its waiting jobs, oldest first: a job that has neither
started nor ended is in the wait list of its pipeline, where a drain comes to it, and nothing else
is. The invariant is proved once on `Admission`, one lemma per operation, and reaches every state
of the runner through `Reachable.reflTransGen_toAdmission`. There it is a fact about the heap:
`waitListByPipeline[p]` is the jobs of `p` with no start that are neither completed nor canceled,
in the order `ScheduleAsync` created them.
-/
import Prunner.Runner.Admission

namespace Prunner

namespace Admission

/-- Job `n` waits for a slot of `p`: it was scheduled for `p` and has neither started nor ended. -/
def Waits (a : Admission) (p : String) (n : Nat) : Prop :=
  n < a.count ∧ (a.jobs n).pipeline = p ∧ (a.jobs n).status = .waiting

/-- The wait list of each pipeline holds its waiting jobs, oldest first. -/
structure Inv (a : Admission) : Prop where
  mem : ∀ p n, n ∈ a.waitList p ↔ a.Waits p n
  sorted : ∀ p, (a.waitList p).Pairwise (· < ·)

theorem inv_init : Inv init :=
  ⟨fun _ n => ⟨fun h => (nomatch h), fun h => absurd h.1 (Nat.not_lt_zero n)⟩, fun _ => .nil⟩

section Ops

variable {env : Env} {a : Admission} {p q : String} {n m : Nat} {l : List Nat}

@[simp] theorem setWaitList_waitList_self : (a.setWaitList p l).waitList p = l := by
  simp [setWaitList]

theorem setWaitList_waitList_of_ne (h : q ≠ p) : (a.setWaitList p l).waitList q = a.waitList q :=
  Function.update_noteq h _ _

@[simp] theorem waits_setWaitList : (a.setWaitList p l).Waits q n ↔ a.Waits q n := Iff.rfl

/-- A job moved to any status but waiting no longer waits; the others keep waiting or not. -/
theorem waits_setStatus {s : JobStatus} (hs : s ≠ .waiting) :
    (a.setStatus m s).Waits q n ↔ a.Waits q n ∧ n ≠ m := by
  by_cases h : n = m
  · subst h; simp [Waits, setStatus, hs]
  · simp only [Waits, setStatus, Function.update_noteq h, ne_eq, h, not_false_eq_true, and_true]

theorem waits_start : (a.start m).Waits q n ↔ a.Waits q n ∧ n ≠ m :=
  waits_setStatus (by split <;> nofun)

/-- The pushed job waits for its pipeline. -/
theorem waits_push {b : Bool} : (a.push p b).Waits q n ↔ a.Waits q n ∨ (n = a.count ∧ p = q) := by
  unfold Waits push
  dsimp only
  rcases lt_trichotomy n a.count with h | rfl | h
  · simp [Function.update_noteq (Nat.ne_of_lt h), Nat.ne_of_lt h, h, Nat.lt_succ_of_lt h]
  · simp
  · have : ¬n < a.count + 1 := by omega
    simp [this, Nat.ne_of_gt h, Nat.not_lt.2 h.le]

/-- The replace action finds a job to replace. -/
theorem action_replace (h : a.action env p = .replace) : 0 < (a.waitList p).length := by
  simp only [action] at h
  split_ifs at h with h1 h2 h3
  · exact h3.2
  · split at h
    · split_ifs at h
    · cases h

end Ops

/-! ## Each operation keeps the invariant -/

section Steps

variable {env : Env} {a : Admission} {p : String} {l : List Nat}

theorem Inv.of_waits {b : Admission} (ha : Inv a) (hw : b.waitList = a.waitList)
    (hb : ∀ q n, b.Waits q n ↔ a.Waits q n) : Inv b :=
  ⟨fun q n => by rw [hw, hb]; exact ha.mem q n, fun q => hw ▸ ha.sorted q⟩

/-- The invariant after a write of the wait list of `p`, from a state whose other pipelines keep
their wait lists and their waiting jobs. -/
theorem Inv.setWaitList {b : Admission} (ha : Inv a)
    (hb : ∀ q, q ≠ p → b.waitList q = a.waitList q ∧ ∀ n, b.Waits q n ↔ a.Waits q n)
    (hl : ∀ n, n ∈ l ↔ b.Waits p n) (hs : l.Pairwise (· < ·)) : Inv (b.setWaitList p l) := by
  refine ⟨fun q n => ?_, fun q => ?_⟩ <;> by_cases hq : q = p
  · subst hq; rw [setWaitList_waitList_self, waits_setWaitList]; exact hl n
  · rw [setWaitList_waitList_of_ne hq, (hb q hq).1, waits_setWaitList, (hb q hq).2]; exact ha.mem q n
  · subst hq; rw [setWaitList_waitList_self]; exact hs
  · rw [setWaitList_waitList_of_ne hq, (hb q hq).1]; exact ha.sorted q

/-- The head of a wait list takes a slot and leaves the list. -/
theorem Inv.start_setWaitList {m : Nat} (h : Inv (a.setWaitList p (m :: l))) :
    Inv ((a.start m).setWaitList p l) := by
  have hm : a.Waits p m := (h.mem p m).1 (by simp)
  have hs := h.sorted p
  rw [setWaitList_waitList_self, List.pairwise_cons] at hs
  refine h.setWaitList (fun q hq => ⟨(setWaitList_waitList_of_ne hq).symm, fun n => ?_⟩)
    (fun n => ?_) hs.2
  · rw [waits_start, waits_setWaitList]
    exact and_iff_left_of_imp fun hn e => hq (hn.2.1.symm.trans (e ▸ hm.2.1))
  · rw [waits_start, ← waits_setWaitList, ← h.mem, setWaitList_waitList_self, List.mem_cons]
    by_cases hn : n = m
    · subst hn; simpa using fun h' => lt_irrefl n (hs.1 n h')
    · simp [hn]

theorem Inv.drain (env : Env) (p : String) :
    ∀ (l : List Nat) (a : Admission), Inv (a.setWaitList p l) → Inv (drain env p l a)
  | [], _, h => h
  | m :: l, a, h => by
    by_cases hf : (a.runningCount p : Int) < (env.pipelineDef p).concurrency
    · rw [drain_cons_of_lt hf]; exact Inv.drain env p l _ h.start_setWaitList
    · rw [drain_cons_of_le (le_of_not_lt hf)]; exact h

/-- `submit` with the queue action: the new job goes to the end of the wait list. -/
theorem Inv.queue (ha : Inv a) (b : Bool) :
    Inv ((a.push p b).setWaitList p (a.waitList p ++ [a.count])) := by
  refine ha.setWaitList (fun q hq => ⟨rfl, fun n => ?_⟩) (fun n => ?_) ?_
  · rw [waits_push]; simp [Ne.symm hq]
  · rw [waits_push, List.mem_append, ha.mem, List.mem_singleton]; simp
  · exact List.pairwise_append.2 ⟨ha.sorted p, List.pairwise_singleton _ _,
      fun x hx y hy => List.mem_singleton.1 hy ▸ ((ha.mem p x).1 hx).1⟩

/-- `submit` with the replace action: the newest waiting job is canceled and the new job takes its
place. -/
theorem Inv.replace (ha : Inv a) (b : Bool) (hl : 0 < (a.waitList p).length) :
    Inv (((a.push p b).setStatus ((a.waitList p).getLastD 0) .canceled).setWaitList p
      ((a.waitList p).dropLast ++ [a.count])) := by
  obtain ⟨init, d, hw⟩ := (List.eq_nil_or_concat (a.waitList p)).resolve_left
    (List.ne_nil_of_length_pos hl)
  rw [List.concat_eq_append] at hw
  have hs := ha.sorted p
  rw [hw, List.pairwise_append] at hs
  have hd : a.Waits p d := (ha.mem p d).1 (by simp [hw])
  have hinit : ∀ n, n ∈ init ↔ a.Waits p n ∧ n ≠ d := fun n => by
    rw [← ha.mem, hw, List.mem_append, List.mem_singleton]
    by_cases hn : n = d
    · subst hn; simpa using fun h => lt_irrefl n (hs.2.2 n h n (List.mem_singleton_self n))
    · simp [hn]
  rw [hw, List.getLastD_concat, List.dropLast_concat]
  refine ha.setWaitList (fun q hq => ⟨rfl, fun n => ?_⟩) (fun n => ?_) ?_
  · rw [waits_setStatus (by nofun), waits_push]
    simp only [Ne.symm hq, and_false, or_false]
    exact and_iff_left_of_imp fun hn e => hq (hn.2.1.symm.trans (e ▸ hd.2.1))
  · rw [waits_setStatus (by nofun), waits_push, List.mem_append, hinit, List.mem_singleton]
    by_cases hn : n = a.count
    · subst hn; simp [Nat.ne_of_gt hd.1]
    · simp [hn]
  · exact List.pairwise_append.2 ⟨hs.1, List.pairwise_singleton _ _,
      fun x hx y hy => List.mem_singleton.1 hy ▸ ((hinit x).1 hx).1.1⟩

/-- `submit` with the start action: the new job takes a slot and never waits. -/
theorem Inv.push_start (ha : Inv a) (b : Bool) : Inv ((a.push p b).start a.count) :=
  ha.of_waits rfl fun q n => by
    rw [waits_start, waits_push]
    exact ⟨fun ⟨h, hn⟩ => h.resolve_right fun h' => hn h'.1,
      fun h => ⟨.inl h, Nat.ne_of_lt h.1⟩⟩

theorem Inv.submit (ha : Inv a) (p : String) (b : Bool) : Inv (a.submit env p b).2 := by
  unfold Admission.submit
  cases hact : a.action env p with
  | noQueue => exact ha
  | queueFull => exact ha
  | queue => exact ha.queue b
  | replace => exact ha.replace b (action_replace hact)
  | start => exact ha.push_start b

/-- A running job ends and its pipeline drains. -/
theorem Inv.complete {n : Nat} (ha : Inv a) (hr : (a.jobs n).status = .running) :
    Inv (a.complete env n) := by
  have h1 : Inv (a.setStatus n .completed) := ha.of_waits rfl fun q m => by
    rw [waits_setStatus (by nofun)]
    exact and_iff_left_of_imp fun hm e => by subst e; rw [hm.2.2] at hr; cases hr
  exact Inv.drain env _ _ _ (by rw [setWaitList_self]; exact h1)

theorem Inv.of_step {a' : Admission} (ha : Inv a) (h : Step env a a') : Inv a' := by
  cases h with
  | submit p b _ => exact ha.submit p b
  | complete n _ hr => exact ha.complete hr

theorem inv_of_reflTransGen (h : Relation.ReflTransGen (Step env) init a) : Inv a := by
  induction h with
  | refl => exact inv_init
  | tail _ hs ih => exact ih.of_step hs

end Steps

end Admission

/-! ## The runner -/

theorem PipelineJob.status_eq_waiting {j : PipelineJob} :
    j.status = .waiting ↔ j.start = none ∧ j.completed = false ∧ j.canceled = false := by
  unfold PipelineJob.status
  split_ifs <;> simp_all [Option.isSome_iff_ne_none]

/-- In every state reached from the empty runner, the wait list of each pipeline is exactly its
jobs that have not started and are neither completed nor canceled, in the order they were
scheduled. So no job is left waiting outside its pipeline's wait list. -/
theorem waitList_eq_waitingJobs {env : Env} {r : PipelineRunner} (hr : Reachable env r)
    (p : String) :
    r.waitListByPipeline.slice p = (List.range r.next).filter fun ptr =>
      (r.heap ptr).pipeline == p && (r.heap ptr).start.isNone && !(r.heap ptr).completed &&
        !(r.heap ptr).canceled := by
  have hi := Admission.inv_of_reflTransGen hr.reflTransGen_toAdmission
  have hs : (r.waitListByPipeline.slice p).Pairwise (· < ·) := hi.sorted p
  refine eq_of_perm_of_pairwise ((List.perm_ext_iff_of_nodup (hs.imp Nat.ne_of_lt)
    ((List.nodup_range _).filter _)).2 fun ptr => (hi.mem p ptr).trans ?_) hs
    ((List.pairwise_lt_range _).filter _) fun x _ y _ hxy hyx => absurd (hxy.trans hyx) (lt_irrefl x)
  rw [Admission.Waits, List.mem_filter, List.mem_range, PipelineRunner.toAdmission_count]
  refine and_congr_right fun h => ?_
  rw [PipelineRunner.toAdmission_jobs_of_lt h]
  simp [jobView, PipelineJob.status_eq_waiting, and_assoc]

/-- After three `ScheduleAsync("build")` in `buildEnv`, jobs 1 and 2 wait, and they are the
waiting jobs of `build`. -/
theorem waitList_eq_waitingJobs_build :
    ∃ r, Reachable buildEnv r ∧ r.waitListByPipeline.slice "build" = [1, 2] ∧
      r.waitListByPipeline.slice "build" = (List.range r.next).filter fun ptr =>
        (r.heap ptr).pipeline == "build" && (r.heap ptr).start.isNone && !(r.heap ptr).completed &&
          !(r.heap ptr).canceled := by
  obtain ⟨s, -, hs, -, -, -, hw, -⟩ := buildEnv_run
  exact ⟨s, hs, hw, waitList_eq_waitingJobs hs "build"⟩

end Prunner

/-
Kahn's loop of `sortTasksByDependencies` on an acyclic job. With distinct task names and every
dependency the name of a task, the loop pops every task once, after all its dependencies, and a
task's rank is its turn. The sort by rank and name then puts every dependency before the tasks
that depend on it, in a permutation of the tasks.
-/
import Prunner.Tasks.Orders

namespace Prunner

/-! ## The loop after some names were popped -/

/-- The incoming set of a task's node once the names `done` were popped. -/
def incomingAfter (done : List String) (t : JobTask) : List String :=
  t.dependsOn.dedup.filter (· ∉ done)

/-- A task's node once the names `done` were popped, each ranked by its turn. -/
def nodeAfter (done : List String) (t : JobTask) : TmpNode :=
  ⟨t.name, incomingAfter done t, if t.name ∈ done then done.indexOf t.name else 0⟩

/-- A task is queued once all its dependencies were popped and it was not. -/
def Ready (done : List String) (t : JobTask) : Prop :=
  t.name ∉ done ∧ ∀ d ∈ t.dependsOn, d ∈ done

instance (done : List String) : DecidablePred (Ready done) :=
  fun _ => inferInstanceAs (Decidable (_ ∧ _))

/-- The queue once the names `done` were popped. -/
def readyQueue (jt : JobTasks) (done : List String) : List String :=
  sortStrings ((jt.filter fun t => decide (Ready done t)).map (·.name))

/-- The tasks whose last missing dependency is `n`: popping `n` queues them. -/
def Unlocks (done : List String) (n : String) (t : JobTask) : Prop :=
  n ∈ t.dependsOn ∧ n ∉ done ∧ ∀ d ∈ t.dependsOn, d ∈ done ∨ d = n

instance (done : List String) (n : String) : DecidablePred (Unlocks done n) :=
  fun _ => inferInstanceAs (Decidable (_ ∧ _))

@[simp] theorem mem_incomingAfter {done : List String} {t : JobTask} {d : String} :
    d ∈ incomingAfter done t ↔ d ∈ t.dependsOn ∧ d ∉ done := by
  simp [incomingAfter]

theorem incomingAfter_eq_nil {done : List String} {t : JobTask} :
    incomingAfter done t = [] ↔ ∀ d ∈ t.dependsOn, d ∈ done := by
  simp [List.eq_nil_iff_forall_not_mem]

/-- Popping `n` takes it out of every incoming set. -/
theorem incomingAfter_append (done : List String) (n : String) (t : JobTask) :
    incomingAfter (done ++ [n]) t = (incomingAfter done t).erase n := by
  rw [incomingAfter, incomingAfter, ((List.nodup_dedup _).filter _).erase_eq_filter,
    List.filter_filter]
  exact List.filter_congr fun d _ => by simp [and_comm]; rfl

theorem dropIncoming_eq_erase (n : String) (m : TmpNode) :
    dropIncoming n m = { m with incoming := m.incoming.erase n } := by
  unfold dropIncoming
  split
  · rfl
  · rw [List.erase_of_not_mem ‹_›]

/-! ## One turn -/

/-- Popping `n` at turn `done.length` ranks it and takes it out of every incoming set. -/
theorem setOrder_nodeAfter {done : List String} {n : String} (hn : n ∉ done) (jt : JobTasks) :
    (setOrder n done.length (jt.map (nodeAfter done))).map (dropIncoming n) =
      jt.map (nodeAfter (done ++ [n])) := by
  simp only [setOrder, List.map_map]
  refine List.map_congr_left fun t _ => ?_
  simp only [Function.comp_apply, dropIncoming_eq_erase, ← incomingAfter_append, nodeAfter]
  by_cases h : t.name = n
  · simp [h, hn, List.indexOf_append_of_not_mem hn, incomingAfter_append]
  · by_cases h' : t.name ∈ done <;>
      simp [h, h', List.indexOf_append_of_mem, incomingAfter_append]

theorem filterMap_readyName_setOrder (n : String) (i : Nat) (nodes : List TmpNode) :
    (setOrder n i nodes).filterMap (readyName n) = nodes.filterMap (readyName n) := by
  rw [setOrder, List.filterMap_map]
  exact List.filterMap_congr fun m _ => by simp only [Function.comp_apply]; split <;> rfl

theorem readyName_nodeAfter (done : List String) (n : String) (t : JobTask) :
    readyName n (nodeAfter done t) = if Unlocks done n t then some t.name else none := by
  have h : (n ∈ incomingAfter done t ∧ (incomingAfter done t).erase n = []) ↔
      Unlocks done n t := by
    rw [← incomingAfter_append, incomingAfter_eq_nil, mem_incomingAfter, Unlocks]
    simp only [List.mem_append, List.mem_singleton, and_assoc]
  simp only [readyName, nodeAfter, h]

/-- The names the inner loop queues are those of the tasks that `n` unlocks. -/
theorem filterMap_readyName_nodeAfter (done : List String) (n : String) :
    ∀ jt : JobTasks, (jt.map (nodeAfter done)).filterMap (readyName n) =
      (jt.filter fun t => decide (Unlocks done n t)).map (·.name)
  | [] => rfl
  | t :: jt => by
    by_cases h : Unlocks done n t <;>
      simp [readyName_nodeAfter, h, filterMap_readyName_nodeAfter done n jt]

section Turn

variable {jt : JobTasks} {done : List String} {tn : JobTask}

/-- Popping a ready task `tn`: the tasks ready before and those `tn` unlocks are `tn` and the
tasks ready after. -/
theorem filter_ready_append_unlocks (hnd : (jt.map (·.name)).Nodup)
    (hdone : ∀ t ∈ jt, t.name ∈ done → ∀ d ∈ t.dependsOn, d ∈ done) (htn : tn ∈ jt)
    (hr : Ready done tn) :
    ((jt.filter fun t => decide (Ready done t)) ++
        jt.filter fun t => decide (Unlocks done tn.name t)).Perm
      (tn :: jt.filter fun t => decide (Ready (done ++ [tn.name]) t)) := by
  have hjt : jt.Nodup := hnd.of_map _
  have hdisj : ∀ t, Ready done t → ¬ Unlocks done tn.name t :=
    fun t hrt hu => hu.2.1 (hrt.2 _ hu.1)
  refine (List.perm_ext_iff_of_nodup ?_ ?_).2 fun t => ?_
  · exact List.nodup_append.2 ⟨hjt.filter _, hjt.filter _, fun t ht ht' => by
      simp only [List.mem_filter, decide_eq_true_eq] at ht ht'
      exact hdisj t ht.2 ht'.2⟩
  · exact List.nodup_cons.2 ⟨by simp [Ready], hjt.filter _⟩
  simp only [List.mem_append, List.mem_filter, List.mem_cons, decide_eq_true_eq, Ready,
    List.not_mem_nil, or_false]
  constructor
  · rintro (⟨ht, hname, hdeps⟩ | ⟨ht, hn, hn', hdeps⟩)
    · by_cases h : t.name = tn.name
      · exact .inl (List.inj_on_of_nodup_map hnd ht htn h)
      · exact .inr ⟨ht, not_or.2 ⟨hname, h⟩, fun d hd => .inl (hdeps d hd)⟩
    · refine .inr ⟨ht, not_or.2 ⟨fun hm => hn' (hdone t ht hm _ hn), fun h => ?_⟩, hdeps⟩
      rw [List.inj_on_of_nodup_map hnd ht htn h] at hn
      exact hn' (hr.2 _ hn)
  · rintro (rfl | ⟨ht, hname, hdeps⟩)
    · exact .inl ⟨htn, hr⟩
    · rw [not_or] at hname
      by_cases h : tn.name ∈ t.dependsOn
      · exact .inr ⟨ht, h, hr.1, hdeps⟩
      · exact .inl ⟨ht, hname.1, fun d hd =>
          (hdeps d hd).resolve_right fun hd' => h (hd' ▸ hd)⟩

end Turn

/-! ## The invariant of the loop -/

/-- What holds between two turns of Kahn's loop, with `done` the names popped so far, in turn
order. -/
structure KahnInv (jt : JobTasks) (done queue : List String) (i : Nat) (nodes : List TmpNode) :
    Prop where
  nodes_eq : nodes = jt.map (nodeAfter done)
  queue_eq : queue = readyQueue jt done
  turn_eq : i = done.length
  nodup : done.Nodup
  deps_before : ∀ t ∈ jt, t.name ∈ done → ∀ d ∈ t.dependsOn,
    d ∈ done ∧ done.indexOf d < done.indexOf t.name

section Loop

variable {jt : JobTasks} (hnd : (jt.map (·.name)).Nodup)
include hnd

/-- The first loop of `sortTasksByDependencies` leaves the state with nothing popped. -/
theorem kahnInv_initial : KahnInv jt [] (initialQueue jt) 0 (tmpNodesOf jt) where
  nodes_eq := by
    rw [tmpNodesOf_of_nodup hnd]
    exact List.map_congr_left fun t _ => by simp [nodeAfter, incomingAfter]
  queue_eq := by
    rw [initialQueue, readyQueue]
    congr 2
    exact List.filter_congr fun t _ => by simp [Ready, List.eq_nil_iff_forall_not_mem]
  turn_eq := rfl
  nodup := List.nodup_nil
  deps_before := fun _ _ h => absurd h (List.not_mem_nil _)

/-- One turn of Kahn's loop keeps the invariant, with the popped name appended to `done`. -/
theorem KahnInv.step {done queue : List String} {n : String} {i : Nat} {nodes : List TmpNode}
    (h : KahnInv jt done (n :: queue) i nodes) :
    KahnInv jt (done ++ [n]) (sortStrings (queue ++ (deleteIncoming n (setOrder n i nodes)).2))
      (i + 1) (deleteIncoming n (setOrder n i nodes)).1 := by
  have hq : (n :: queue).Perm ((jt.filter fun t => decide (Ready done t)).map (·.name)) :=
    h.queue_eq ▸ List.perm_insertionSort _ _
  obtain ⟨tn, htn, rfl⟩ := List.mem_map.1 (hq.subset (List.mem_cons_self _ _))
  obtain ⟨htn, hr⟩ : tn ∈ jt ∧ Ready done tn := by simpa using htn
  have hdone : ∀ t ∈ jt, t.name ∈ done → ∀ d ∈ t.dependsOn, d ∈ done :=
    fun t ht hm d hd => (h.deps_before t ht hm d hd).1
  rw [deleteIncoming_eq, h.nodes_eq, h.turn_eq]
  refine ⟨setOrder_nodeAfter hr.1 jt, ?_, by simp, h.nodup.append (List.nodup_singleton _)
    (List.disjoint_singleton.2 hr.1), ?_⟩
  · -- the names queued in this turn, with the rest of the queue, are the ready tasks
    rw [filterMap_readyName_setOrder, filterMap_readyName_nodeAfter, readyQueue]
    refine sortStrings_eq_of_perm ((List.perm_cons tn.name).1 ?_)
    have hp := (filter_ready_append_unlocks hnd hdone htn hr).map (·.name)
    rw [List.map_append, List.map_cons] at hp
    exact (hq.append_right _).trans hp
  · intro t ht hm d hd
    rcases List.mem_append.1 hm with hm | hm
    · obtain ⟨hd', hlt⟩ := h.deps_before t ht hm d hd
      rw [List.indexOf_append_of_mem hd', List.indexOf_append_of_mem hm]
      exact ⟨List.mem_append_left _ hd', hlt⟩
    · rw [List.inj_on_of_nodup_map hnd ht htn (List.mem_singleton.1 hm)] at hd ⊢
      rw [List.indexOf_append_of_mem (hr.2 d hd), List.indexOf_append_of_not_mem hr.1,
        List.indexOf_cons_self, Nat.add_zero]
      exact ⟨List.mem_append_left _ (hr.2 d hd), List.indexOf_lt_length.2 (hr.2 d hd)⟩

/-- Kahn's loop keeps the invariant to its end, where the queue is empty. -/
theorem KahnInv.run {done queue : List String} {i : Nat} {nodes : List TmpNode}
    (h : KahnInv jt done queue i nodes) :
    ∃ done' i', KahnInv jt done' [] i' (kahnLoop queue i nodes) := by
  induction queue, i, nodes using Prunner.kahnLoop.induct generalizing done with
  | case1 i nodes => rw [kahnLoop.eq_1]; exact ⟨done, i, h⟩
  | case2 i nodes n queue st =>
    rename_i ih
    rw [kahnLoop.eq_2]
    exact ih (h.step hnd)

end Loop

/-! ## Every task is popped -/

/-- `a` depends on `b` in `jt`: a task named `a` lists `b` in its `DependsOn`. -/
def DependsOn (jt : JobTasks) (a b : String) : Prop :=
  ∃ t ∈ jt, t.name = a ∧ b ∈ t.dependsOn

/-- When no task is ready, an acyclic job whose dependencies are all tasks of it has every task
popped: a task not popped would wait on a dependency not popped, and following such waits
never ends. -/
theorem mem_done_of_not_ready {jt : JobTasks} {done : List String}
    (hdeps : ∀ t ∈ jt, ∀ d ∈ t.dependsOn, d ∈ jt.map (·.name))
    (hacyc : ∀ x, ¬ Relation.TransGen (DependsOn jt) x x) (hready : ∀ t ∈ jt, ¬ Ready done t) :
    ∀ t ∈ jt, t.name ∈ done := by
  -- `b` below `a`: `a` depends on `b`, directly or not
  let r : {t // t ∈ jt} → {t // t ∈ jt} → Prop := fun b a =>
    Relation.TransGen (DependsOn jt) a.1.name b.1.name
  have : IsTrans _ r := ⟨fun _ _ _ hab hbc => hbc.trans hab⟩
  have : IsIrrefl _ r := ⟨fun a => hacyc a.1.name⟩
  suffices ∀ a : {t // t ∈ jt}, a.1.name ∈ done from fun t ht => this ⟨t, ht⟩
  intro a
  induction a using (Finite.wellFounded_of_trans_of_irrefl r).induction with
  | h a ih =>
    by_contra hn
    obtain ⟨d, hd, hdn⟩ : ∃ d ∈ a.1.dependsOn, d ∉ done := by
      simpa [Ready, hn] using hready a.1 a.2
    obtain ⟨td, htd, rfl⟩ := List.mem_map.1 (hdeps a.1 a.2 d hd)
    exact hdn (ih ⟨td, htd⟩ (.single ⟨a.1, a.2, rfl, hd⟩))

/-- A job is acyclic when a rank of names grows along every dependency. -/
theorem acyclic_of_rank {jt : JobTasks} (f : String → Nat)
    (hf : ∀ t ∈ jt, ∀ d ∈ t.dependsOn, f d < f t.name) :
    ∀ x, ¬ Relation.TransGen (DependsOn jt) x x := by
  have hlt : ∀ {x y}, Relation.TransGen (DependsOn jt) x y → f y < f x := by
    intro x y h
    induction h with
    | single h => obtain ⟨t, ht, rfl, hd⟩ := h; exact hf t ht _ hd
    | tail _ h ih => obtain ⟨t, ht, rfl, hd⟩ := h; exact (hf t ht _ hd).trans ih
  exact fun x h => lt_irrefl _ (hlt h)

/-! ## The order -/

/-- `sortTasksByDependencies` on a job with distinct names, whose dependencies are tasks of it
and acyclic: the result is a permutation of the tasks, every dependency of a task stands before
it, and every order Go may take gives this result. -/
theorem sortTasksByDependencies_topological {jt : JobTasks} (hnd : (jt.map (·.name)).Nodup)
    (hdeps : ∀ t ∈ jt, ∀ d ∈ t.dependsOn, d ∈ jt.map (·.name))
    (hacyc : ∀ x, ¬ Relation.TransGen (DependsOn jt) x x) :
    (sortTasksByDependencies jt).Perm jt ∧
      (∀ t ∈ jt, ∀ d ∈ t.dependsOn,
        ∃ td ∈ jt, td.name = d ∧ [td, t].Sublist (sortTasksByDependencies jt)) ∧
      ∀ out, SortRun jt out → out = sortTasksByDependencies jt := by
  obtain ⟨done, _, inv⟩ := (kahnInv_initial hnd).run hnd
  have hall := mem_done_of_not_ready hdeps hacyc fun t ht hr =>
    List.not_mem_nil t.name <| inv.queue_eq ▸ (List.perm_insertionSort _ _).mem_iff.2
      (List.mem_map_of_mem _ (List.mem_filter.2 ⟨ht, decide_eq_true hr⟩))
  -- a task's rank is its turn
  have hrank : ∀ t ∈ jt, rankOf (kahnLoop (initialQueue jt) 0 (tmpNodesOf jt)) t.name =
      done.indexOf t.name := fun t ht => by
    rw [inv.nodes_eq]
    exact (rankOf_of_mem (by rw [List.map_map]; exact hnd) (List.mem_map_of_mem _ ht)).trans
      (if_pos (hall t ht))
  refine ⟨List.perm_insertionSort _ jt, fun t ht d hd => ?_,
    fun out h => sortRun_eq hnd (.refl jt) h⟩
  obtain ⟨td, htd, rfl⟩ := List.mem_map.1 (hdeps t ht d hd)
  have hlt := (inv.deps_before t ht (hall t ht) _ hd).2
  rw [← hrank td htd, ← hrank t ht] at hlt
  rw [sortTasksByDependencies_eq]
  refine ⟨td, htd, rfl, pair_sublist_of_pairwise ?_ ?_ (List.sorted_insertionSort _ jt)
    ((List.perm_insertionSort _ jt).mem_iff.2 htd) ((List.perm_insertionSort _ jt).mem_iff.2 ht)⟩
  · rintro (h | ⟨h, _⟩) <;> omega
  · rintro rfl; exact lt_irrefl _ hlt

/-- A pipeline: `lint`, `test` after it, and `deploy` after both, which lists `lint` twice. -/
def pipelineTasks : JobTasks :=
  [{ script := ["make deploy"], dependsOn := ["test", "lint", "lint"], allowFailure := false,
     name := "deploy", status := toStatus .waiting },
   { script := ["make test"], dependsOn := ["lint"], allowFailure := false, name := "test",
     status := toStatus .waiting },
   { script := ["make lint"], dependsOn := [], allowFailure := false, name := "lint",
     status := toStatus .waiting }]

theorem sortTasksByDependencies_topological_pipeline :
    (sortTasksByDependencies pipelineTasks).Perm pipelineTasks ∧
      (∀ t ∈ pipelineTasks, ∀ d ∈ t.dependsOn, ∃ td ∈ pipelineTasks, td.name = d ∧
        [td, t].Sublist (sortTasksByDependencies pipelineTasks)) ∧
      ∀ out, SortRun pipelineTasks out → out = sortTasksByDependencies pipelineTasks :=
  sortTasksByDependencies_topological (by decide) (by decide)
    (acyclic_of_rank (fun s => if s = "lint" then 0 else if s = "test" then 1 else 2) (by decide))

end Prunner

/-
The orders Go leaves open in `buildJobTasks`. `range tasks` visits the definitions in any order.
The inner `range tmpNodes` of Kahn's loop visits the nodes in any order at each turn. And
`sort.Slice`, which orders by rank and then name, is not stable. With distinct task names none of
them changes the result: the queue is sorted again after each turn, a node's rank is looked up
by its name, and rank and name order distinct tasks strictly.
-/
import Prunner.Tasks

namespace Prunner

/-! ## Sorted lists -/

/-- `sort.Strings` of two permutations of one list. -/
theorem sortStrings_eq_of_perm {l l' : List String} (h : l.Perm l') :
    sortStrings l = sortStrings l' :=
  List.eq_of_perm_of_sorted
    (((List.perm_insertionSort _ l).trans h).trans (List.perm_insertionSort _ l').symm)
    (List.sorted_insertionSort _ l) (List.sorted_insertionSort _ l')

/-- Two permutations of one list, sorted by a relation that is antisymmetric on their members,
are equal. -/
theorem eq_of_perm_of_pairwise {α : Type} {R : α → α → Prop} :
    ∀ {l₁ l₂ : List α}, l₁.Perm l₂ → l₁.Pairwise R → l₂.Pairwise R →
      (∀ a ∈ l₁, ∀ b ∈ l₁, R a b → R b a → a = b) → l₁ = l₂
  | [], _, hp, _, _, _ => hp.nil_eq
  | a :: t₁, [], hp, _, _, _ => absurd hp.length_eq (by simp)
  | a :: t₁, b :: t₂, hp, h₁, h₂, hanti => by
    rw [List.pairwise_cons] at h₁ h₂
    have hab : a = b := by
      by_contra hne
      have ha : a ∈ t₂ := (List.mem_cons.1 (hp.subset (List.mem_cons_self a t₁))).resolve_left hne
      have hb : b ∈ t₁ :=
        (List.mem_cons.1 (hp.symm.subset (List.mem_cons_self b t₂))).resolve_left (Ne.symm hne)
      exact hne (hanti a (List.mem_cons_self _ _) b (List.mem_cons_of_mem _ hb) (h₁.1 b hb) (h₂.1 a ha))
    subst hab
    rw [eq_of_perm_of_pairwise (List.perm_cons a |>.1 hp) h₁.2 h₂.2
      fun x hx y hy => hanti x (List.mem_cons_of_mem _ hx) y (List.mem_cons_of_mem _ hy)]

/-! ## One turn of Kahn's loop, node by node -/

/-- What the inner loop does to one node: `n` leaves its incoming set. -/
def dropIncoming (n : String) (m : TmpNode) : TmpNode :=
  if n ∈ m.incoming then { m with incoming := m.incoming.erase n } else m

/-- What the inner loop queues for one node: its name, when `n` was the last of its incoming
set. -/
def readyName (n : String) (m : TmpNode) : Option String :=
  if n ∈ m.incoming ∧ m.incoming.erase n = [] then some m.name else none

/-- The inner loop maps each node on its own. -/
theorem deleteIncoming_eq (n : String) : ∀ nodes : List TmpNode,
    deleteIncoming n nodes = (nodes.map (dropIncoming n), nodes.filterMap (readyName n))
  | [] => rfl
  | m :: ms => by
    by_cases h : n ∈ m.incoming
    · by_cases h' : m.incoming.erase n = [] <;>
        simp [deleteIncoming, deleteIncoming_eq n ms, dropIncoming, readyName, h, h']
    · simp [deleteIncoming, deleteIncoming_eq n ms, dropIncoming, readyName, h]

@[simp] theorem name_dropIncoming (n : String) (m : TmpNode) : (dropIncoming n m).name = m.name := by
  unfold dropIncoming; split <;> rfl

theorem map_name_setOrder (n : String) (i : Nat) (nodes : List TmpNode) :
    (setOrder n i nodes).map (·.name) = nodes.map (·.name) := by
  simp only [setOrder, List.map_map]
  exact List.map_congr_left fun m _ => by simp only [Function.comp_apply]; split <;> rfl

/-- Kahn's loop keeps the nodes' names where they are. -/
theorem map_name_kahnLoop (queue : List String) (i : Nat) (nodes : List TmpNode) :
    (kahnLoop queue i nodes).map (·.name) = nodes.map (·.name) := by
  induction queue, i, nodes using kahnLoop.induct with
  | case1 i nodes => rw [kahnLoop.eq_1]
  | case2 i nodes n queue st ih =>
    rw [kahnLoop.eq_2, ih]
    simp only [st]
    rw [deleteIncoming_eq, List.map_map]
    simp only [Function.comp_def, name_dropIncoming]
    exact map_name_setOrder n i nodes

/-! ## Kahn's loop with the inner loop in any order -/

/-- The main loop of `sortTasksByDependencies` as Go runs it: the inner `range tmpNodes` visits
the nodes in an order of its choosing at each turn. -/
inductive KahnRun : List String → Nat → List TmpNode → List TmpNode → Prop
  | done (i : Nat) (nodes : List TmpNode) : KahnRun [] i nodes nodes
  | step {n : String} {queue : List String} {i : Nat} {nodes visit out : List TmpNode} :
      visit.Perm (setOrder n i nodes) →
      KahnRun (sortStrings (queue ++ (deleteIncoming n visit).2)) (i + 1)
        (deleteIncoming n visit).1 out →
      KahnRun (n :: queue) i nodes out

/-- `kahnLoop` visits the nodes in the order of the list, one of Go's orders. -/
theorem kahnRun_kahnLoop (queue : List String) (i : Nat) (nodes : List TmpNode) :
    KahnRun queue i nodes (kahnLoop queue i nodes) := by
  induction queue, i, nodes using kahnLoop.induct with
  | case1 i nodes => rw [kahnLoop.eq_1]; exact .done i nodes
  | case2 i nodes n queue _ ih => rw [kahnLoop.eq_2]; exact .step (List.Perm.refl _) ih

/-- Whatever orders the inner loop takes, and from any order of the nodes, Kahn's loop leaves the
nodes of `kahnLoop`, in some order. -/
theorem KahnRun.perm_kahnLoop {queue : List String} {i : Nat} {nodes out : List TmpNode}
    (h : KahnRun queue i nodes out) :
    ∀ nodes' : List TmpNode, nodes'.Perm nodes → out.Perm (kahnLoop queue i nodes') := by
  induction h with
  | done i nodes => intro nodes' hp; rw [kahnLoop.eq_1]; exact hp.symm
  | @step n queue i nodes visit out hv _ ih =>
    intro nodes' hp
    have hv' : visit.Perm (setOrder n i nodes') := hv.trans (hp.map _).symm
    have h1 : (deleteIncoming n visit).1.Perm (deleteIncoming n (setOrder n i nodes')).1 := by
      rw [deleteIncoming_eq, deleteIncoming_eq]; exact hv'.map _
    have h2 : (deleteIncoming n visit).2.Perm (deleteIncoming n (setOrder n i nodes')).2 := by
      rw [deleteIncoming_eq, deleteIncoming_eq]; exact hv'.filterMap _
    rw [kahnLoop.eq_2, ← sortStrings_eq_of_perm ((List.Perm.refl queue).append h2)]
    exact ih _ h1.symm

/-! ## Ranks -/

/-- Among nodes of distinct names, the node found by a name does not depend on their order. -/
theorem find?_name_perm {l l' : List TmpNode} (h : l.Perm l') (hnd : (l.map (·.name)).Nodup)
    (x : String) : l.find? (·.name == x) = l'.find? (·.name == x) := by
  cases hf : l.find? (·.name == x) with
  | none =>
    rw [List.find?_eq_none] at hf
    rw [eq_comm, List.find?_eq_none]
    exact fun a ha => hf a (h.symm.subset ha)
  | some a =>
    have ha := List.find?_some hf
    obtain ⟨b, hb⟩ := Option.isSome_iff_exists.1 (List.find?_isSome.2
      ⟨a, h.subset (List.mem_of_find?_eq_some hf), ha⟩ : (l'.find? (·.name == x)).isSome)
    rw [hb]
    have hbx := List.find?_some hb
    simp only [beq_iff_eq] at ha hbx
    exact congrArg some (List.inj_on_of_nodup_map hnd (List.mem_of_find?_eq_some hf)
      (h.symm.subset (List.mem_of_find?_eq_some hb)) (ha.trans hbx.symm))

theorem rankOf_perm {l l' : List TmpNode} (h : l.Perm l') (hnd : (l.map (·.name)).Nodup) :
    rankOf l = rankOf l' :=
  funext fun x => by rw [rankOf, rankOf, find?_name_perm h hnd]

/-- Among nodes of distinct names, a node's rank is its order. -/
theorem rankOf_of_mem {l : List TmpNode} (hnd : (l.map (·.name)).Nodup) {m : TmpNode}
    (hm : m ∈ l) : rankOf l m.name = m.order := by
  cases hf : l.find? (·.name == m.name) with
  | none => exact absurd (List.find?_eq_none.1 hf m hm) (by simp)
  | some a =>
    have ha : a.name = m.name := by simpa using List.find?_some hf
    rw [rankOf, hf, List.inj_on_of_nodup_map hnd (List.mem_of_find?_eq_some hf) hm ha]
    rfl

/-! ## The parts of `sortTasksByDependencies` -/

/-- The first loop of `sortTasksByDependencies`: `tmpNodes`, one node per task name. -/
def tmpNodesOf (jt : JobTasks) : List TmpNode :=
  jt.foldl (fun nodes n => insertNode ⟨n.name, n.dependsOn.dedup, 0⟩ nodes) []

/-- The queue the first loop leaves: the tasks without dependencies, sorted. -/
def initialQueue (jt : JobTasks) : List String :=
  sortStrings ((jt.filter (·.dependsOn = [])).map (·.name))

/-- The order of the final sort of the model: by rank, then by name. -/
def RankLE (nodes : List TmpNode) (a b : JobTask) : Prop :=
  rankOf nodes a.name < rankOf nodes b.name ∨
    (rankOf nodes a.name = rankOf nodes b.name ∧ a.name ≤ b.name)

instance (nodes : List TmpNode) : DecidableRel (RankLE nodes) :=
  fun _ _ => inferInstanceAs (Decidable (_ ∨ _))

theorem sortTasksByDependencies_eq (jt : JobTasks) :
    sortTasksByDependencies jt =
      jt.insertionSort (RankLE (kahnLoop (initialQueue jt) 0 (tmpNodesOf jt))) := rfl

instance (nodes : List TmpNode) : IsTotal JobTask (RankLE nodes) :=
  ⟨fun a b => by
    unfold RankLE
    rcases lt_trichotomy (rankOf nodes a.name) (rankOf nodes b.name) with h | h | h
    · exact .inl (.inl h)
    · rcases le_total a.name b.name with h' | h'
      · exact .inl (.inr ⟨h, h'⟩)
      · exact .inr (.inr ⟨h.symm, h'⟩)
    · exact .inr (.inl h)⟩

instance (nodes : List TmpNode) : IsTrans JobTask (RankLE nodes) :=
  ⟨fun a b c hab hbc => by
    unfold RankLE at *
    rcases hab with h₁ | ⟨h₁, h₁'⟩ <;> rcases hbc with h₂ | ⟨h₂, h₂'⟩
    · exact .inl (h₁.trans h₂)
    · exact .inl (h₂ ▸ h₁)
    · exact .inl (h₁ ▸ h₂)
    · exact .inr ⟨h₁.trans h₂, h₁'.trans h₂'⟩⟩

/-- With distinct names, `tmpNodes` holds one node per task, in the order of the tasks. -/
theorem tmpNodesOf_of_nodup {jt : JobTasks} (hnd : (jt.map (·.name)).Nodup) :
    tmpNodesOf jt = jt.map fun t => ⟨t.name, t.dependsOn.dedup, 0⟩ := by
  suffices ∀ (l : JobTasks) (acc : List TmpNode), (acc.map (·.name) ++ l.map (·.name)).Nodup →
      l.foldl (fun nodes n => insertNode ⟨n.name, n.dependsOn.dedup, 0⟩ nodes) acc =
        acc ++ l.map fun t => ⟨t.name, t.dependsOn.dedup, 0⟩ from this jt [] hnd
  intro l
  induction l with
  | nil => intro acc _; simp
  | cons t l ih =>
    intro acc h
    have hfresh : acc.any (·.name == t.name) = false := by
      simp only [List.any_eq_false, beq_iff_eq]
      intro m hm hmt
      exact List.disjoint_of_nodup_append h (List.mem_map_of_mem _ hm) (hmt ▸ List.mem_cons_self _ _)
    rw [List.foldl_cons, insertNode, hfresh, if_neg Bool.false_ne_true, ih]
    · simp
    · simpa using h

/-! ## `sort.Slice` -/

/-- The `less` function of the `sort.Slice` call: by rank, then by name. -/
def taskLess (nodes : List TmpNode) (a b : JobTask) : Bool :=
  if rankOf nodes a.name = rankOf nodes b.name then decide (a.name < b.name)
  else decide (rankOf nodes a.name < rankOf nodes b.name)

theorem taskLess_of_rankLE {nodes : List TmpNode} {a b : JobTask} (h : RankLE nodes a b) :
    taskLess nodes b a = false := by
  unfold taskLess
  rcases h with h | ⟨h, h'⟩
  · rw [if_neg (Nat.ne_of_gt h), decide_eq_false (Nat.not_lt.2 h.le)]
  · rw [if_pos h.symm, decide_eq_false (not_lt.2 h')]

/-- Two tasks neither of which is `less` than the other have the same name. -/
theorem name_eq_of_not_taskLess {nodes : List TmpNode} {a b : JobTask}
    (hab : taskLess nodes a b = false) (hba : taskLess nodes b a = false) : a.name = b.name := by
  unfold taskLess at hab hba
  by_cases h : rankOf nodes a.name = rankOf nodes b.name
  · rw [if_pos h, decide_eq_false_iff_not, not_lt] at hab
    rw [if_pos h.symm, decide_eq_false_iff_not, not_lt] at hba
    exact le_antisymm hba hab
  · rw [if_neg h, decide_eq_false_iff_not] at hab
    rw [if_neg (Ne.symm h), decide_eq_false_iff_not] at hba
    omega

/-! ## Every order Go may take -/

/-- What `sortTasksByDependencies` may leave in `jt` as Go runs it: Kahn's loop with its inner loop
in any order, then an order that `sort.Slice`, which need not be stable, may leave: a
permutation of `jt` in which no task is `less` than one before it. -/
def SortRun (jt out : JobTasks) : Prop :=
  ∃ nodes, KahnRun (initialQueue jt) 0 (tmpNodesOf jt) nodes ∧ out.Perm jt ∧
    out.Pairwise fun a b => taskLess nodes b a = false

/-- The model's order is one of them. -/
theorem sortRun_sortTasksByDependencies (jt : JobTasks) :
    SortRun jt (sortTasksByDependencies jt) :=
  ⟨_, kahnRun_kahnLoop _ _ _, List.perm_insertionSort _ _,
    (List.sorted_insertionSort _ jt).imp taskLess_of_rankLE⟩

/-- With distinct names, every run of `sortTasksByDependencies` on a permutation of `jt` leaves
the order of the model. -/
theorem sortRun_eq {jt jt' out : JobTasks} (hnd : (jt.map (·.name)).Nodup) (hp : jt'.Perm jt)
    (h : SortRun jt' out) : out = sortTasksByDependencies jt := by
  obtain ⟨nodes, hrun, hout, hsorted⟩ := h
  have hnd' : (jt'.map (·.name)).Nodup := (hp.map _).nodup_iff.2 hnd
  rw [show initialQueue jt' = initialQueue jt from sortStrings_eq_of_perm ((hp.filter _).map _)]
    at hrun
  -- the nodes of the run are those of the model, with the same ranks
  have hN := hrun.perm_kahnLoop (tmpNodesOf jt)
    (by rw [tmpNodesOf_of_nodup hnd, tmpNodesOf_of_nodup hnd']; exact (hp.map _).symm)
  have hNnd : ((kahnLoop (initialQueue jt) 0 (tmpNodesOf jt)).map (·.name)).Nodup := by
    rw [map_name_kahnLoop, tmpNodesOf_of_nodup hnd, List.map_map]; exact hnd
  have hless : taskLess nodes = taskLess (kahnLoop (initialQueue jt) 0 (tmpNodesOf jt)) := by
    unfold taskLess; rw [rankOf_perm hN.symm hNnd]
  rw [hless] at hsorted
  rw [sortTasksByDependencies_eq]
  exact eq_of_perm_of_pairwise ((hout.trans hp).trans (List.perm_insertionSort _ jt).symm) hsorted
    ((List.sorted_insertionSort _ jt).imp taskLess_of_rankLE)
    fun a ha b hb hab hba => List.inj_on_of_nodup_map ((hout.trans hp).map _ |>.nodup_iff.2 hnd)
      ha hb (name_eq_of_not_taskLess hba hab)

/-! ## `buildJobTasks` -/

/-- A task of the new job from an entry of the definitions: named by its key, and waiting. -/
def jobTaskOf (e : Σ _ : String, TaskDef) : JobTask :=
  { e.2 with name := e.1, status := toStatus .waiting }

theorem buildJobTasks_eq (tasks : GoMap String TaskDef) :
    buildJobTasks tasks = sortTasksByDependencies (tasks.entries.map jobTaskOf) := rfl

/-- What `buildJobTasks` may return as Go runs it: `range tasks` visits the definitions in any
order, then `sortTasksByDependencies` runs as Go may run it. -/
def BuildRun (tasks : GoMap String TaskDef) (out : JobTasks) : Prop :=
  ∃ defs : List (Σ _ : String, TaskDef), defs.Perm tasks.entries ∧ SortRun (defs.map jobTaskOf) out

/-- `buildJobTasks` depends only on the (name, definition) pairs of the map, whatever orders Go
takes: every run on a map with the same pairs returns the sequence of the model, and that
sequence is one of the runs. Cyclic dependencies and unknown names are allowed. -/
theorem buildJobTasks_order_independent (tasks tasks' : GoMap String TaskDef)
    (h : ∀ name, tasks'.lookup name = tasks.lookup name) :
    BuildRun tasks' (buildJobTasks tasks) ∧
      ∀ out, BuildRun tasks' out → out = buildJobTasks tasks := by
  have hp : tasks'.entries.Perm tasks.entries :=
    List.lookup_ext tasks'.nodupKeys tasks.nodupKeys fun x y => by
      rw [← AList.lookup, ← AList.lookup, h]
  have hnd : ((tasks.entries.map jobTaskOf).map (·.name)).Nodup := by
    rw [List.map_map]; exact tasks.keys_nodup
  have huniq : ∀ out, BuildRun tasks' out → out = buildJobTasks tasks :=
    fun _ ⟨_, hd, hrun⟩ => sortRun_eq hnd ((hd.trans hp).map _) hrun
  have hrun : BuildRun tasks' (buildJobTasks tasks') :=
    ⟨_, .refl _, sortRun_sortTasksByDependencies _⟩
  exact ⟨huniq _ hrun ▸ hrun, huniq⟩

/-- `lint`, then `test` after it. -/
def lintDef : TaskDef := ⟨["make lint"], [], false⟩

def testDef : TaskDef := ⟨["make test"], ["lint"], false⟩

def lintThenTest : GoMap String TaskDef := (AList.insert "lint" lintDef ∅).insert "test" testDef

def testThenLint : GoMap String TaskDef := (AList.insert "test" testDef ∅).insert "lint" lintDef

theorem buildJobTasks_order_independent_swapped :
    (∀ name, testThenLint.lookup name = lintThenTest.lookup name) ∧
      BuildRun testThenLint (buildJobTasks lintThenTest) ∧
        ∀ out, BuildRun testThenLint out → out = buildJobTasks lintThenTest :=
  have h : ∀ name, testThenLint.lookup name = lintThenTest.lookup name := fun _ =>
    AList.perm_lookup (AList.insert_insert_of_ne _ (by decide))
  ⟨h, buildJobTasks_order_independent lintThenTest testThenLint h⟩

end Prunner

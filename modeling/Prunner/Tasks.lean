/-
`buildJobTasks` and `sortTasksByDependencies`: the tasks of a new job, one per task definition,
ordered by Kahn's algorithm with the queue of ready names kept sorted, then by rank and name.
-/
import Prunner.Basic
import Mathlib

namespace Prunner

/-- `sort.Strings`. -/
def sortStrings (l : List String) : List String :=
  l.insertionSort (· ≤ ·)

theorem length_sortStrings (l : List String) : (sortStrings l).length = l.length :=
  (List.perm_insertionSort _ l).length_eq

/-- A `tmpNode` of `sortTasksByDependencies`: a task's name, the dependencies not yet ordered
(a `map[string]struct{}`), and its rank. -/
structure TmpNode where
  name : String
  incoming : List String
  order : Nat := 0
  deriving DecidableEq, Repr

/-- `tmpNodes[nd.name] = nd` on the values of `tmpNodes`: a node of that name is replaced. -/
def insertNode (nd : TmpNode) (nodes : List TmpNode) : List TmpNode :=
  if nodes.any (·.name == nd.name) then nodes.map fun m => if m.name = nd.name then nd else m
  else nodes ++ [nd]

/-- `tmpNodes[n].order = i`. -/
def setOrder (n : String) (i : Nat) (nodes : List TmpNode) : List TmpNode :=
  nodes.map fun m => if m.name = n then { m with order := i } else m

/-- The inner `range tmpNodes` of the main loop: `n` leaves every incoming set, and the names
whose set became empty are returned for the queue. -/
def deleteIncoming (n : String) : List TmpNode → List TmpNode × List String
  | [] => ([], [])
  | m :: ms =>
    let rest := deleteIncoming n ms
    if n ∈ m.incoming then
      let m' := { m with incoming := m.incoming.erase n }
      (m' :: rest.1, if m'.incoming = [] then m.name :: rest.2 else rest.2)
    else (m :: rest.1, rest.2)

/-- The number of dependency edges not yet removed. -/
def incomingCount (nodes : List TmpNode) : Nat :=
  (nodes.map (·.incoming.length)).sum

theorem deleteIncoming_count (n : String) :
    ∀ nodes : List TmpNode,
      2 * incomingCount (deleteIncoming n nodes).1 + (deleteIncoming n nodes).2.length ≤
        2 * incomingCount nodes
  | [] => by simp [deleteIncoming, incomingCount]
  | m :: ms => by
    have ih := deleteIncoming_count n ms
    unfold incomingCount at ih ⊢
    simp only [deleteIncoming]
    split
    · rename_i hm
      have hl := List.length_erase_of_mem hm
      have hp := List.length_pos_of_mem hm
      split <;> simp only [List.map_cons, List.sum_cons, List.length_cons] <;> omega
    · simp only [List.map_cons, List.sum_cons]
      omega

theorem setOrder_count (n : String) (i : Nat) (nodes : List TmpNode) :
    incomingCount (setOrder n i nodes) = incomingCount nodes := by
  simp only [incomingCount, setOrder, List.map_map]
  congr 1
  apply List.map_congr_left
  intro m _
  simp only [Function.comp_apply]
  split <;> rfl

/-- The main loop of `sortTasksByDependencies`: pop the head of the queue, give it the next
rank, remove it from every incoming set, and sort the queue again. -/
def kahnLoop (queue : List String) (i : Nat) (nodes : List TmpNode) : List TmpNode :=
  match queue with
  | [] => nodes
  | n :: queue =>
    let step := deleteIncoming n (setOrder n i nodes)
    kahnLoop (sortStrings (queue ++ step.2)) (i + 1) step.1
termination_by 2 * incomingCount nodes + queue.length
decreasing_by
  have h := deleteIncoming_count n (setOrder n i nodes)
  rw [setOrder_count] at h
  simp only [length_sortStrings, List.length_append, List.length_cons]
  omega

/-- The rank of a task: the order of its node. -/
def rankOf (nodes : List TmpNode) (name : String) : Nat :=
  ((nodes.find? (·.name == name)).map (·.order)).getD 0

/-- `jobTasks.sortTasksByDependencies`; `sort.Slice` by rank, then name. -/
def sortTasksByDependencies (jt : JobTasks) : JobTasks :=
  let tmpNodes := jt.foldl (fun nodes n => insertNode ⟨n.name, n.dependsOn.dedup, 0⟩ nodes) []
  let queue := sortStrings ((jt.filter (·.dependsOn = [])).map (·.name))
  let nodes := kahnLoop queue 0 tmpNodes
  jt.insertionSort fun a b =>
    rankOf nodes a.name < rankOf nodes b.name ∨
      (rankOf nodes a.name = rankOf nodes b.name ∧ a.name ≤ b.name)

/-- `buildJobTasks`: one waiting task per definition, in the order of `range tasks`, then
sorted. -/
def buildJobTasks (tasks : GoMap String TaskDef) : JobTasks :=
  sortTasksByDependencies <| tasks.entries.map fun e =>
    { e.2 with name := e.1, status := toStatus .waiting }

end Prunner

/-
Jobs on the shared task runner. `storeTaskOutput` sets a task's stdout on the runner's own
environment and variables, which every later `Run` merges into what its commands run with,
whichever job the task belongs to: the output of one job's tasks reaches the tasks of the others.
-/
import Prunner.Taskctl.Runner
import Mathlib.Data.List.Forall2

namespace Prunner.Taskctl

/-! ## The output of a job reaches the other jobs -/

/-- A task `a` of job 1 whose command prints `s`, then a task `b` of job 2. -/
def twoJobs (s : String) : List (Task × World) :=
  [({ name := "a", commands := ["echo"], «variables» := (∅ : Container).set "jobID" "1" },
    { exec := fun _ _ => { output := s } }),
   ({ name := "b", commands := ["true"], «variables» := (∅ : Container).set "jobID" "2" }, {})]

/-- The world with the stdout of every command cleared. -/
def World.withoutStdout (w : World) : World :=
  { w with exec := fun ph i => { w.exec ph i with output := "" } }

/-- Two sequences of `Run` calls for the same tasks whose collaborators differ at most in the
stdout that the commands of the tasks of job `j` print. -/
def StdoutVariant (j : String) (seq seq' : List (Task × World)) : Prop :=
  List.Forall₂ (fun a b => a.1 = b.1 ∧ a.2.withoutStdout = b.2.withoutStdout ∧
    (a.1.jobID ≠ j → a.2 = b.2)) seq seq'

/-- On the runner that `prunner.go` builds, whatever the command of job 1 prints, the command of
job 2 runs with it as `A_OUTPUT` and as `Tasks.A.Output`. -/
theorem output_reaches_other_jobs (s s' : String) :
    StdoutVariant "1" (twoJobs s) (twoJobs s') ∧
      ((runAll (newTaskRunner ∅) (twoJobs s))[1]?.map fun res =>
        res.log.map fun inv => (inv.env.lookup "A_OUTPUT", inv.vars.lookup "Tasks.A.Output")) =
        some [(some s, some s)] :=
  ⟨.cons ⟨rfl, rfl, fun h => absurd rfl h⟩ (.cons ⟨rfl, rfl, fun _ => rfl⟩ .nil), rfl⟩

end Prunner.Taskctl

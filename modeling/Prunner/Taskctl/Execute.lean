/-
The chain of a task's script in `TaskRunner.execute`, with the deferred reset of `Run`: a chain
runs up to its first failure that ends it, and that failure is recorded as the task's error and,
for an exit status, its exit code; a chain that no failure ends leaves the task not errored, and
the reset then sets its exit code to 0. An exit status of a task that may fail does not end the
chain, and nothing records it once the chain is over.
-/
import Prunner.Taskctl.Runner

namespace Prunner.Taskctl

/-! ## Failures -/

/-- Whether a failed command ends the chain of `execute`: every error but an exit status of a
task that may fail. -/
def ExecError.stops (allowFailure : Bool) : ExecError → Bool
  | exitStatus _ _ => !allowFailure
  | other _ => true

/-- The exit code a failed command leaves on a task whose exit code was `code`: `execute` keeps
an exit status as `int16`, and leaves it for another error. -/
def ExecError.exitCode (code : Int16) : ExecError → Int16
  | exitStatus status _ => BitVec.ofInt 16 status
  | other _ => code

/-! ## The loop over the chain -/

section Loop

variable (w : World) (env vars : Container)

/-- A chain none of whose commands ends it runs to its end: no error, every command run in
order, and the task's `Errored` and `Skipped` as they were. -/
theorem executeLoop_of_not_stops : ∀ (cs : List String) (i : Nat) (prev : String) (t : Task),
    (∀ j < cs.length, ∀ e, (w.exec .script (i + j)).err = some e → e.stops t.allowFailure = false) →
    (executeLoop w env vars i prev cs t).1 = none ∧
      (executeLoop w env vars i prev cs t).2.1.errored = t.errored ∧
      (executeLoop w env vars i prev cs t).2.1.skipped = t.skipped ∧
      (executeLoop w env vars i prev cs t).2.2.map (·.command) = cs
  | [], _, _, _, _ => ⟨rfl, rfl, rfl, rfl⟩
  | c :: cs, i, prev, t, h => by
    have tail : ∀ t' : Task, t'.allowFailure = t.allowFailure →
        ∀ j < cs.length, ∀ e, (w.exec .script (i + 1 + j)).err = some e →
          e.stops t'.allowFailure = false := fun t' ht' j hj e he => by
      rw [ht']
      exact h (j + 1) (by simp only [List.length_cons]; omega) e
        (by rw [show i + (j + 1) = i + 1 + j by omega]; exact he)
    have h0 : ∀ e, (w.exec .script i).err = some e → e.stops t.allowFailure = false :=
      h 0 (by simp)
    cases he : (w.exec .script i).err with
    | none =>
      obtain ⟨h1, h2, h3, h4⟩ := executeLoop_of_not_stops cs (i + 1) (w.exec .script i).output
        { t with stdout := t.stdout ++ (w.exec .script i).output } (tail _ rfl)
      simp only [executeLoop, he]
      exact ⟨h1, h2, h3, by rw [List.map_cons, h4]⟩
    | some e =>
      cases e with
      | exitStatus status err =>
        have haf : t.allowFailure = true := by simpa [ExecError.stops] using h0 _ he
        obtain ⟨h1, h2, h3, h4⟩ := executeLoop_of_not_stops cs (i + 1) (w.exec .script i).output
          { t with stdout := t.stdout ++ (w.exec .script i).output, exitCode := BitVec.ofInt 16 status }
          (tail _ rfl)
        simp only [executeLoop, he]
        rw [if_pos haf]
        exact ⟨h1, h2, h3, by rw [List.map_cons, h4]⟩
      | other err => exact absurd (h0 _ he) (by simp [ExecError.stops])

end Loop

/-! ## `execute` and the reset of `Run` -/

theorem resetExitCode_of_ok {t : Task} (he : t.errored = false) (hs : t.skipped = false) :
    resetExitCode t = { t with exitCode := 0 } := by
  simp [resetExitCode, he, hs]

section Execute

variable (w : World) (env vars : Container) (t : Task)

/-- A chain that no failure ends, run by `execute` and reset by `Run` on a task that has not
errored and was not skipped: no error, every command run, the task not errored, exit code 0. -/
theorem execute_of_not_stops (hx : w.newExecutor .script 0 = none)
    (h : ∀ j < t.commands.length, ∀ e, (w.exec .script j).err = some e →
      e.stops t.allowFailure = false)
    (he : t.errored = false) (hs : t.skipped = false) :
    (execute w env vars t).1 = none ∧ (resetExitCode (execute w env vars t).2.1).errored = false ∧
      (resetExitCode (execute w env vars t).2.1).exitCode = 0 ∧
      (execute w env vars t).2.2.map (·.command) = t.commands := by
  obtain ⟨h1, h2, h3, h4⟩ := executeLoop_of_not_stops w env vars t.commands 0 ""
    { t with start := some w.startedAt } (by simpa using h)
  simp only [execute, hx, h1]
  rw [resetExitCode_of_ok (by rw [h2, he]) (by rw [h3, hs])]
  exact ⟨trivial, h2.trans he, rfl, h4⟩

end Execute

/-! ## The recorded outcome of a chain -/

section Outcome

variable (w : World) (env vars : Container) (t : Task)

/-- A task that may fail, has not errored and was not skipped, whose commands fail only with
exit statuses: `execute` runs the whole chain, and once `Run` has reset the task it has not
errored and its exit code is 0, whatever statuses its commands exited with. -/
theorem execute_allowFailure_forgets_exit (hx : w.newExecutor .script 0 = none)
    (haf : t.allowFailure = true) (he : t.errored = false) (hs : t.skipped = false)
    (hno : ∀ j < t.commands.length, ∀ err, (w.exec .script j).err ≠ some (.other err)) :
    (execute w env vars t).1 = none ∧ (resetExitCode (execute w env vars t).2.1).errored = false ∧
      (resetExitCode (execute w env vars t).2.1).exitCode = 0 ∧
      (execute w env vars t).2.2.map (·.command) = t.commands :=
  execute_of_not_stops w env vars t hx (fun j hj e hje => by
    cases e with
    | exitStatus => simp [ExecError.stops, haf]
    | other err => exact absurd hje (hno j hj err)) he hs

/-- One command that exits with status 1. -/
def exitOneWorld : World :=
  { exec := fun _ _ => { err := some (.exitStatus 1 "exit status 1") } }

/-- A task of one command that may fail. -/
def allowedTask : Task :=
  { name := "test", commands := ["exit 1"], allowFailure := true }

theorem execute_allowFailure_exitOne :
    (exitOneWorld.exec .script 0).err = some (.exitStatus 1 "exit status 1") ∧
      (resetExitCode (execute exitOneWorld ∅ ∅ allowedTask).2.1).errored = false ∧
      (resetExitCode (execute exitOneWorld ∅ ∅ allowedTask).2.1).exitCode = 0 :=
  have h := execute_allowFailure_forgets_exit exitOneWorld ∅ ∅ allowedTask rfl rfl rfl rfl
    fun _ _ err => by simp [exitOneWorld]
  ⟨rfl, h.2.1, h.2.2.1⟩

end Outcome

end Prunner.Taskctl

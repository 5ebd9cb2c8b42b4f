/-
The task runner of package `taskctl` (`runner.go`): the one `TaskRunner` that `prunner.go` builds
and every job's tasks run on, its shared variables and environment containers, `Run` with the
task's condition, its `before` and `after` commands and the script's chain in `execute`, and
`storeTaskOutput`, which exports a task's stdout into the shared containers.
What the collaborators outside src/ do (the execution context, the compiler, the executor, the
output store's file system, the clock) is given for each `Run` call by a `World`.
-/
import Prunner.Basic

namespace Prunner.Taskctl

/-! ## Variables containers -/

/-- Modelled from the spec: taskctl's `variables.Container` (outside src/), by its string
values. -/
abbrev Container := GoMap String String

namespace Container

/-- `Get`: the empty string for a missing key, which the type assertions `.(string)` of
`NewTaskRunner` and `Run` rely on. -/
def get (c : Container) (key : String) : String :=
  (c.lookup key).getD ""

/-- `Set`, and `With`, which sets on a copy. -/
def set (c : Container) (key value : String) : Container :=
  c.insert key value

/-- `Merge`: a copy of `c` with every value of `src` set on it. -/
def merge (c src : Container) : Container :=
  src ∪ c

theorem lookup_set (c : Container) (key value k : String) :
    (c.set key value).lookup k = if k = key then some value else c.lookup k := by
  unfold set
  split
  · subst k; exact AList.lookup_insert c
  · exact AList.lookup_insert_ne ‹_›

theorem lookup_merge (c src : Container) (k : String) :
    (c.merge src).lookup k = (src.lookup k).or (c.lookup k) := by
  unfold merge
  by_cases hk : k ∈ src
  · obtain ⟨v, hv⟩ := Option.isSome_iff_exists.1 (AList.lookup_isSome.2 hk)
    rw [AList.lookup_union_left hk, hv, Option.or_some]
  · rw [AList.lookup_union_right hk, AList.lookup_eq_none.2 hk, Option.none_or]

end Container

/-! ## Tasks and the runner -/

/-- Modelled from the spec: the fields of taskctl's `task.Task` (outside src/) that `Run` reads,
then those it writes: the times of `execute`, `Skipped`, `ExitCode`, `Errored`, `Error`, and
`Log.Stdout`. -/
structure Task where
  name : String
  commands : List String
  condition : String := ""
  before : List String := []
  after : List String := []
  context : String := ""
  env : Container := ∅
  «variables» : Container := ∅
  exportAs : String := ""
  allowFailure : Bool := false
  start : Option Time := none
  «end» : Option Time := none
  skipped : Bool := false
  exitCode : Int16 := 0
  errored : Bool := false
  error : Option Error := none
  stdout : String := ""

/-- The job of a task: the variable `jobID` that `buildPipelineGraph` puts on each stage. -/
def Task.jobID (t : Task) : String :=
  t.variables.get "jobID"

/-- `TaskRunner`, with the fields `Run` reads and writes: the execution contexts by their
environment (`SetContexts`), and the variables and environment shared by every task it runs.
The cancellation state, the live outputs and the cleanup list are left out. -/
structure TaskRunner where
  contexts : GoMap String Container
  «variables» : Container
  env : Container

/-- `NewTaskRunner`, with the variables its options set (`prunner.go` passes none). -/
def newTaskRunner (vars : Container) : TaskRunner :=
  { contexts := ∅, «variables» := vars, env := (∅ : Container).set "ARGS" (vars.get "Args") }

/-! ## The collaborators -/

/-- The places of `Run` that run commands or bring up the execution context. -/
inductive Phase
  | task
  | condition
  | before
  | script
  | after
  deriving DecidableEq, Repr

/-- A failed `Execute`: an exit status other than 0 (`executor.IsExitStatus`), or another
error. -/
inductive ExecError
  | exitStatus (status : Int) (err : Error)
  | other (err : Error)
  deriving DecidableEq, Repr

/-- The error an `ExecError` is. -/
def ExecError.err : ExecError → Error
  | exitStatus _ err => err
  | other err => err

/-- What `Execute` returns for one command: the stdout it captured, and its error. -/
structure ExecOutcome where
  output : String := ""
  err : Option ExecError := none
  deriving DecidableEq, Repr

/-- What the collaborators outside src/ report during one `Run`: `r.ctx.Err()`; the environment
of `runner.DefaultContext()`; `Up` then `Before` of the context at each `contextForTask`;
`CompileCommand` and `NewDefaultExecutor` for the `i`-th command of a phase (the condition is
command 0, and the script's executor is made once, as command 0); `os.MkdirAll` and `os.Create`
in `OutputStore.Writer`, by output name; `CompileTask`; `Execute` of each command; and the two
readings of `time.Now()` in `execute`. A command's outcome is given by its place, not computed from
the environment and variables it runs with, which `Invocation` records: the model says what `Run`
does with each outcome, not what a command computes. -/
structure World where
  ctxErr : Option Error := none
  defaultContext : Container := ∅
  contextUp : Phase → Option Error := fun _ => none
  compileCommand : Phase → Nat → Option Error := fun _ _ => none
  newExecutor : Phase → Nat → Option Error := fun _ _ => none
  mkdirAll : String → Option Error := fun _ => none
  create : String → Option Error := fun _ => none
  compileTask : Option Error := none
  exec : Phase → Nat → ExecOutcome := fun _ _ => {}
  startedAt : Time := 0
  endedAt : Time := 0

/-- A command run, with the environment and the variables it was compiled with. -/
structure Invocation where
  phase : Phase
  command : String
  env : Container
  vars : Container

/-! ## Run -/

section Run

variable (w : World)

/-- `contextForTask`, by the context's environment. -/
def contextForTask (ph : Phase) (r : TaskRunner) (t : Task) : Except Error Container :=
  match (if t.context = "" then some w.defaultContext else r.contexts.lookup t.context) with
  | none => .error ("no such context " ++ t.context)
  | some env =>
    match w.contextUp ph with
    | some err => .error err
    | none => .ok env

/-- `checkTaskCondition`: the condition is met when it exits with status 0; it runs with the
runner's own environment and variables. -/
def checkTaskCondition (r : TaskRunner) (t : Task) : Except Error Bool × List Invocation :=
  if t.condition = "" then (.ok true, []) else
  match contextForTask w .condition r t with
  | .error err => (.error err, [])
  | .ok _ =>
    match w.compileCommand .condition 0, w.newExecutor .condition 0 with
    | some err, _ => (.error err, [])
    | none, some err => (.error err, [])
    | none, none =>
      (match (w.exec .condition 0).err with
        | none => .ok true
        | some (.exitStatus _ _) => .ok false
        | some (.other err) => .error err,
       [⟨.condition, t.condition, r.env, r.variables⟩])

/-- The loop of `before` and `after` over their commands from the `i`-th on: a failed
compilation ends it with the hook's message, a failed executor with its error, and a failed
command ends `before` (`stopOnError`) but only logs a warning in `after`. -/
def runHookLoop (ph : Phase) (hook : String) (stopOnError : Bool) (env vars : Container) :
    Nat → List String → Option Error × List Invocation
  | _, [] => (none, [])
  | i, command :: rest =>
    match w.compileCommand ph i with
    | some err => (some ("\"" ++ hook ++ "\" command compilation failed: " ++ err), [])
    | none =>
      match w.newExecutor ph i with
      | some err => (some err, [])
      | none =>
        match (w.exec ph i).err, stopOnError with
        | some e, true => (some e.err, [⟨ph, command, env, vars⟩])
        | _, _ =>
          let res := runHookLoop ph hook stopOnError env vars (i + 1) rest
          (res.1, ⟨ph, command, env, vars⟩ :: res.2)

/-- `before` and `after`: nothing without commands, else the task's context, then the loop. -/
def runHook (ph : Phase) (hook : String) (stopOnError : Bool) (commands : List String)
    (r : TaskRunner) (t : Task) (env vars : Container) : Option Error × List Invocation :=
  if commands = [] then (none, []) else
  match contextForTask w ph r t with
  | .error err => (some err, [])
  | .ok _ => runHookLoop w ph hook stopOnError env vars 0 commands

/-- `before`. -/
def before (r : TaskRunner) (t : Task) (env vars : Container) : Option Error × List Invocation :=
  runHook w .before "before" true t.before r t env vars

/-- `after`. -/
def after (r : TaskRunner) (t : Task) (env vars : Container) : Option Error × List Invocation :=
  runHook w .after "after" false t.after r t env vars

/-- The loop of `execute` over the script's chain from the `i`-th command on. Each command runs
with the previous one's stdout as its variable `Output` (set on the chain's copy of the
variables that `CompileTask` makes), and its stdout is appended to `Log.Stdout`; an exit status
is kept as `int16`, and a failure ends the loop unless it is an exit status of a task that may
fail. -/
def executeLoop (env vars : Container) :
    Nat → String → List String → Task → Option Error × Task × List Invocation
  | _, _, [], t => (none, t, [])
  | i, prev, command :: rest, t =>
    let o := w.exec .script i
    let t := { t with stdout := t.stdout ++ o.output }
    let inv : Invocation := ⟨.script, command, env, vars.set "Output" prev⟩
    let continue_ (t : Task) :=
      let res := executeLoop env vars (i + 1) o.output rest t
      (res.1, res.2.1, inv :: res.2.2)
    let fail (t : Task) (err : Error) : Option Error × Task × List Invocation :=
      (some err, { t with errored := true, error := some err, «end» := some w.endedAt }, [inv])
    match o.err with
    | none => continue_ t
    | some (.exitStatus status err) =>
      let t := { t with exitCode := BitVec.ofInt 16 status }
      if t.allowFailure then continue_ t else fail t err
    | some (.other err) => fail t err

/-- `execute`. -/
def execute (env vars : Container) (t : Task) : Option Error × Task × List Invocation :=
  match w.newExecutor .script 0 with
  | some err => (some err, t, [])
  | none =>
    let res := executeLoop w env vars 0 "" t.commands { t with start := some w.startedAt }
    match res.1 with
    | none => (none, { res.2.1 with «end» := some w.endedAt }, res.2.2)
    | some _ => res

end Run

/-! ## Exporting a task's output -/

/-- Go's `strings.ToUpper` where `storeTaskOutput` uses it, before `sanitize`: the ASCII letters
are upper-cased, and so are `ı` and `ſ`, the two other letters whose upper case is ASCII. The
upper case of any other character outside ASCII is outside ASCII too, and `sanitize` replaces it
with `_` as it would the character itself; the model leaves such characters as they are. -/
def toUpper (s : String) : String :=
  ⟨s.toList.map fun c => if c.toNat = 0x131 then 'I' else if c.toNat = 0x17F then 'S' else c.toUpper⟩

/-- Go's `unicode.IsSpace`: the characters of Unicode's `White_Space` property. -/
def isSpace (c : Char) : Bool :=
  let n := c.toNat
  (9 ≤ n && n ≤ 13) || n == 0x20 || n == 0x85 || n == 0xA0 || n == 0x1680 ||
    (0x2000 ≤ n && n ≤ 0x200A) || n == 0x2028 || n == 0x2029 || n == 0x202F || n == 0x205F ||
    n == 0x3000

/-- The `isSeparator` of Go's `strings.Title`: an ASCII character other than a letter, a digit
and `_`; outside ASCII, a space (no letter or digit is one). -/
def isSeparator (c : Char) : Bool :=
  if c.toNat ≤ 0x7F then !(c.isAlphanum || c == '_') else isSpace c

/-- Go's `strings.Title`: each character after a separator, the first one too, is mapped by
`unicode.ToTitle`, here for the ASCII letters only (the title cases of the other letters are
tables of Go's `unicode` package, outside src/). -/
def title (s : String) : String :=
  ⟨go ' ' s.toList⟩
where
  go : Char → List Char → List Char
  | _, [] => []
  | prev, c :: cs => (if isSeparator prev then c.toUpper else c) :: go c cs

/-- The regular expression `[^a-zA-Z0-9_]` replaced with `_`. -/
def sanitize (s : String) : String :=
  ⟨s.toList.map fun c => if c.isAlphanum || c == '_' then c else '_'⟩

/-- The variable `storeTaskOutput` sets: `Tasks.<Title(name)>.Output`. -/
def varName (t : Task) : String :=
  "Tasks." ++ title t.name ++ ".Output"

/-- The environment variable `storeTaskOutput` sets: `ExportAs`, or `<NAME>_OUTPUT`. -/
def envVarName (t : Task) : String :=
  if t.exportAs = "" then sanitize (toUpper t.name ++ "_OUTPUT") else t.exportAs

/-- `storeTaskOutput`: the task's stdout set on the runner's own containers. -/
def storeTaskOutput (t : Task) (r : TaskRunner) : TaskRunner :=
  { r with env := r.env.set (envVarName t) t.stdout,
           «variables» := r.variables.set (varName t) t.stdout }

/-! ## A whole Run -/

/-- What one `Run` call leaves: the error it returns, the task with the fields it wrote, the
commands it ran, and the runner. -/
structure RunResult where
  result : Option Error
  task : Task
  log : List Invocation
  runner : TaskRunner

/-- `OutputStore.Writer` for the task's output `outputName` (the file's path is left out). -/
def writer (w : World) (outputName : String) : Option Error :=
  match w.mkdirAll outputName with
  | some err => some ("creating job logs directory: " ++ err)
  | none => (w.create outputName).map ("creating task output log file: " ++ ·)

/-- The deferred function of `Run`: the exit code of a task that neither errored nor was skipped
is reset to 0. -/
def resetExitCode (t : Task) : Task :=
  if !t.errored && !t.skipped then { t with exitCode := 0 } else t

section Run

variable (w : World)

/-- `Run` from the output store's writers on: the script compiled and executed, its stdout
exported, and the `after` commands, whose error `Run` returns. -/
def runScript (r : TaskRunner) (t : Task) (env vars : Container) : RunResult :=
  match writer w "stdout" <|> writer w "stderr" <|> w.compileTask with
  | some err => ⟨some err, t, [], r⟩
  | none =>
    let e := execute w env vars t
    match e.1 with
    | some err => ⟨some err, e.2.1, e.2.2, r⟩
    | none =>
      let r := storeTaskOutput e.2.1 r
      let a := after w r e.2.1 env vars
      ⟨a.1, e.2.1, e.2.2 ++ a.2, r⟩

/-- `Run` once the condition is met: the `before` commands, then `runScript`. -/
def runMain (r : TaskRunner) (t : Task) (env vars : Container) : RunResult :=
  let b := before w r t env vars
  match b.1 with
  | some err => ⟨some err, t, b.2, r⟩
  | none =>
    let res := runScript w r t env vars
    { res with log := b.2 ++ res.log }

/-- `Run` once the task's context is up, with the environment and variables it made: the
condition, then `runMain`, then the deferred reset of the exit code. -/
def runWithContext (r : TaskRunner) (t : Task) (env vars : Container) : RunResult :=
  let cond := checkTaskCondition w r t
  let res : RunResult :=
    match cond.1 with
    | .error err => ⟨some err, t, [], r⟩
    | .ok false => ⟨none, { t with skipped := true }, [], r⟩
    | .ok true => runMain w r t env vars
  { res with task := resetExitCode res.task, log := cond.2 ++ res.log }

/-- `Run`: the variables are the runner's merged with the task's, the environment the runner's
merged with the context's, `TASK_NAME`, and the task's own. -/
def run (r : TaskRunner) (t : Task) : RunResult :=
  match w.ctxErr with
  | some err => ⟨some err, t, [], r⟩
  | none =>
    match contextForTask w .task r t with
    | .error err => ⟨some err, t, [], r⟩
    | .ok ctxEnv =>
      runWithContext w r t (((r.env.merge ctxEnv).set "TASK_NAME" t.name).merge t.env)
        (r.variables.merge t.variables)

end Run

/-- `Run` called for each task in turn on one runner, each with what its collaborators
report. -/
def runAll : TaskRunner → List (Task × World) → List RunResult
  | _, [] => []
  | r, (t, w) :: rest =>
    let res := run w r t
    res :: runAll res.runner rest

end Prunner.Taskctl

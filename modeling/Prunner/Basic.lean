/-
The data model of `prunner.go`: pipeline definitions, jobs and their tasks, the admission
actions, and Go maps as association lists whose order of entries is one order `range` may visit.
-/
import Mathlib.Data.List.AList

namespace Prunner

/-! ## Go values -/

/-- `uuid.UUID`: sixteen bytes. -/
abbrev UUID := BitVec 128

/-- A `time.Time`, as its offset from Go's zero time, so that `IsZero` is `= 0`. -/
abbrev Time := Int

/-- A Go `error`, by its message. -/
abbrev Error := String

/-- Go's `int16`. -/
abbrev Int16 := BitVec 16

/-- A Go `map[K]V`: distinct keys; the order of the entries is one order `range` may visit. -/
abbrev GoMap (K V : Type) := AList (fun _ : K => V)

/-- `m[k]` on a map of slices: `nil` when `k` is absent. -/
def GoMap.slice {K V : Type} [DecidableEq K] (m : GoMap K (List V)) (k : K) : List V :=
  (m.lookup k).getD []

section GoMap

variable {K V : Type} [DecidableEq K]

@[simp] theorem GoMap.slice_empty (k : K) : (∅ : GoMap K (List V)).slice k = [] := rfl

@[simp] theorem GoMap.slice_insert_self (m : GoMap K (List V)) (k : K) (l : List V) :
    GoMap.slice (m.insert k l) k = l := by
  simp [GoMap.slice]

@[simp] theorem GoMap.slice_insert_ne (m : GoMap K (List V)) {k k' : K} (l : List V) (h : k' ≠ k) :
    GoMap.slice (m.insert k l) k' = m.slice k' := by
  simp [GoMap.slice, AList.lookup_insert_ne h]

theorem GoMap.slice_insert (m : GoMap K (List V)) (k k' : K) (l : List V) :
    GoMap.slice (m.insert k l) k' = if k' = k then l else m.slice k' := by
  split
  · subst k'; simp
  · simp [*]

end GoMap

/-! ## `%q` -/

/-- Go's `strconv.IsPrint` up to U+00FF: the ASCII graphic characters and the space, and those of
Latin-1 but for the soft hyphen. Above U+00FF Go reads tables outside src/; the model counts
every such character as printable. -/
def isPrint (c : Char) : Bool :=
  let n := c.toNat
  if n ≤ 0xFF then (0x20 ≤ n && n ≤ 0x7E) || (0xA1 ≤ n && n ≤ 0xFF && n != 0xAD) else true

/-- The letter of Go's escape of a control character: `\a`, `\b`, `\t`, `\n`, `\v`, `\f`, `\r`. -/
def escapeLetter : Nat → Option Char
  | 7 => some 'a'
  | 8 => some 'b'
  | 9 => some 't'
  | 10 => some 'n'
  | 11 => some 'v'
  | 12 => some 'f'
  | 13 => some 'r'
  | _ => none

/-- The last `k` hexadecimal digits of `n`, in lower case, most significant first. -/
def hexDigits : Nat → Nat → List Char
  | 0, _ => []
  | k + 1, n =>
    let d := n % 16
    hexDigits k (n / 16) ++ [Char.ofNat (if d < 10 then 48 + d else 87 + d)]

/-- `appendEscapedRune` of `strconv.Quote` for one character: a backslash before the double
quote and the backslash, a printable character as it is, Go's escape of a control character that
has one, `\x` and two digits for the other ASCII control characters and DEL, `\u` and four digits
below U+10000, `\U` and eight above. -/
def quoteChar (c : Char) : List Char :=
  let backslash := Char.ofNat 92
  let n := c.toNat
  if n = 34 ∨ n = 92 then [backslash, c]
  else if isPrint c then [c]
  else match escapeLetter n with
    | some e => [backslash, e]
    | none =>
      if n < 0x20 ∨ n = 0x7F then backslash :: 'x' :: hexDigits 2 n
      else if n < 0x10000 then backslash :: 'u' :: hexDigits 4 n
      else backslash :: 'U' :: hexDigits 8 n

/-- The verb `%q` of `fmt` on a string: `strconv.Quote`, the escaped characters between double
quotes. -/
def quote (s : String) : String :=
  ⟨Char.ofNat 34 :: s.toList.flatMap quoteChar ++ [Char.ofNat 34]⟩

example : quote "a\"b\n" = "\"a\\\"b\\n\"" := by decide

/-! ## Lists -/

/-- In a list sorted by `R`, `a` stands before `b` when `R b a` fails. -/
theorem pair_sublist_of_pairwise {α : Type} {R : α → α → Prop} {a b : α} (hba : ¬ R b a)
    (hab : a ≠ b) : ∀ {l : List α}, l.Pairwise R → a ∈ l → b ∈ l → [a, b].Sublist l
  | [], _, ha, _ => absurd ha (List.not_mem_nil a)
  | x :: xs, hl, ha, hb => by
    rw [List.pairwise_cons] at hl
    rcases List.mem_cons.1 ha with rfl | ha'
    · exact ((List.mem_cons.1 hb).resolve_left hab.symm |> List.singleton_sublist.2).cons₂ _
    · rcases List.mem_cons.1 hb with rfl | hb'
      · exact absurd (hl.1 a ha') hba
      · exact (pair_sublist_of_pairwise hba hab hl.2 ha' hb').cons _

/-! ## Pipeline definitions (package `definition`, outside src/) -/

/-- Modelled from the spec: `definition.TaskDef`, declared outside src/, with the fields
`prunner.go` reads: the task's commands, the tasks it depends on, whether it may fail. -/
structure TaskDef where
  script : List String
  dependsOn : List String
  allowFailure : Bool
  deriving DecidableEq, Repr, Inhabited

/-- Modelled from the spec: `definition.QueueStrategy`, whose zero value is `append`. -/
inductive QueueStrategy
  | append
  | replace
  deriving DecidableEq, Repr, Inhabited

/-- Modelled from the spec: `definition.PipelineDef`, declared outside src/. The defaults are
Go's zero value, which `r.defs.Pipelines[p]` yields for an undefined pipeline. -/
structure PipelineDef where
  tasks : GoMap String TaskDef := ∅
  concurrency : Int := 0
  queueLimit : Option Int := none
  queueStrategy : QueueStrategy := .append

instance : Inhabited PipelineDef := ⟨{}⟩

/-! ## Jobs -/

/-- `jobTask`: a task definition with its name and the state the task runner reports. -/
structure JobTask extends TaskDef where
  name : String
  status : String
  start : Option Time := none
  «end» : Option Time := none
  skipped : Bool := false
  exitCode : Int16 := 0
  errored : Bool := false
  error : Option Error := none
  deriving DecidableEq, Repr, Inhabited

/-- `jobTasks`. -/
abbrev JobTasks := List JobTask

/-- `pipelineJob`. -/
structure PipelineJob where
  id : UUID
  pipeline : String
  completed : Bool := false
  canceled : Bool := false
  created : Time
  start : Option Time := none
  «end» : Option Time := none
  user : String
  tasks : JobTasks
  lastError : Option Error := none
  deriving DecidableEq, Repr, Inhabited

/-- `(*pipelineJob).isRunning`. -/
def PipelineJob.isRunning (j : PipelineJob) : Bool :=
  j.start.isSome && !j.completed && !j.canceled

theorem PipelineJob.isRunning_iff (j : PipelineJob) :
    j.isRunning = true ↔ j.start.isSome ∧ j.completed = false ∧ j.canceled = false := by
  simp [isRunning, and_assoc]

/-- `jobTasks.byName`: the position of the first task of that name. -/
def JobTasks.byName (jt : JobTasks) (name : String) : Option Nat :=
  jt.findIdx? (·.name == name)

/-- Modelled from the spec: the stage statuses `scheduler.StatusWaiting` … `StatusCanceled`. -/
inductive StageStatus
  | waiting
  | running
  | skipped
  | done
  | error
  | canceled
  deriving DecidableEq, Repr

/-- `toStatus`. -/
def toStatus : StageStatus → String
  | .waiting => "waiting"
  | .running => "running"
  | .skipped => "skipped"
  | .done => "done"
  | .error => "error"
  | .canceled => "canceled"

/-! ## Admission -/

/-- `scheduleAction`. -/
inductive ScheduleAction
  | start
  | queue
  | replace
  | noQueue
  | queueFull
  deriving DecidableEq, Repr

/-- `errNoQueue`. -/
def errNoQueue : Error := "concurrency exceeded and queueing disabled for pipeline"

/-- `errQueueFull`. -/
def errQueueFull : Error := "concurrency exceeded and queue limit reached for pipeline"

/-- `ScheduleOpts`. -/
structure ScheduleOpts where
  user : String

end Prunner

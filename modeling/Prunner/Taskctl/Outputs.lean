/-
The live task outputs of `TaskRunner`. Once `before` has succeeded, `Run` registers a fresh
`newTaskOutput` in `taskOutputs` under its task. Its deferred function looks up the entry under
the task, calls `Finish` on that output, and deletes the entry. `CurrentTaskOutput` reads the
entry. Each locked section is one step, and the `Run` calls of different goroutines interleave
in any way.

Suppose the scheduler never enters a `Run` of a task while another `Run` of that task is in
flight. Then every interleaving has three properties:
- `CurrentTaskOutput(t)` finds exactly the output of the `Run` of `t` that has registered it and
  not yet returned. So the map is empty whenever no `Run` is in flight.
- The deferred function always finds its entry, so it never dereferences `nil`.
- Every output is flushed at most once, and only after its own `Run` has returned. No reader
  finds it after that.
Two overlapping `Run`s of one task break all three.
-/
import Prunner.Basic

namespace Prunner

section GoMap

variable {K V : Type} [DecidableEq K]

theorem GoMap.mem_of_lookup_eq_some {m : GoMap K V} {k : K} {v : V} (h : m.lookup k = some v) :
    k ∈ m :=
  AList.lookup_isSome.1 (by rw [h]; rfl)

theorem GoMap.lookup_insert_eq_some {m : GoMap K V} {k k' : K} {v v' : V} :
    (m.insert k v).lookup k' = some v' ↔ k' = k ∧ v = v' ∨ k' ≠ k ∧ m.lookup k' = some v' := by
  by_cases e : k' = k
  · subst e; simp
  · simp [e, AList.lookup_insert_ne e]

theorem GoMap.lookup_erase_eq_some {m : GoMap K V} {k k' : K} {v' : V} :
    (m.erase k).lookup k' = some v' ↔ k' ≠ k ∧ m.lookup k' = some v' := by
  by_cases e : k' = k
  · subst e; simp [AList.lookup_erase]
  · simp [e, AList.lookup_erase_ne e]

end GoMap

end Prunner

namespace Prunner.Taskctl

/-- A `Run` call in flight: its task, and whether it has registered its output. -/
structure RunCall where
  task : Nat
  registered : Bool
  deriving DecidableEq, Repr

/-- What the task-output code of `TaskRunner` reads and writes. A task is its pointer, and the
output that `newTaskOutput` made in `Run` call `k` is `k`. The fields are `taskOutputs`, the
outputs whose `Finish` has run, the `Run` calls in flight, and every `Run` call so far.
`NewTaskRunner` makes `taskOutputs` empty. -/
structure TaskOutputs where
  taskOutputs : GoMap Nat Nat := ∅
  finished : List Nat := []
  runs : GoMap Nat RunCall := ∅
  entered : List Nat := []

namespace TaskOutputs

/-- `CurrentTaskOutput(t)`: the output under `t`, whose lines it returns. `none` is `ok` false. -/
def currentTaskOutput (s : TaskOutputs) (t : Nat) : Option Nat :=
  s.taskOutputs.lookup t

/-- The message of Go's panic on a field of a `nil` pointer. -/
def errNilDereference : Error :=
  "runtime error: invalid memory address or nil pointer dereference"

/-- A step of one goroutine. `runEnter k t` enters `Run` call `k` of task `t`. `register k`
registers the call's output. `runReturn k` returns before registering: an error up to `before`,
or a condition not met. `runExit k` returns after registering and runs the deferred function. -/
inductive Action
  | runEnter (k t : Nat)
  | register (k : Nat)
  | runReturn (k : Nat)
  | runExit (k : Nat)
  deriving DecidableEq, Repr

/-- One step; `none` when it is not enabled. The deferred function reads `r.taskOutputs[t]`.
That is `nil` when the entry is missing, and then its `.stdout` panics. -/
def step (s : TaskOutputs) : Action → Option (Except Error TaskOutputs)
  | .runEnter k t =>
    if k ∈ s.entered then none
    else some (.ok { s with runs := s.runs.insert k ⟨t, false⟩, entered := k :: s.entered })
  | .register k =>
    match s.runs.lookup k with
    | some ⟨t, false⟩ =>
      some (.ok { s with taskOutputs := s.taskOutputs.insert t k, runs := s.runs.insert k ⟨t, true⟩ })
    | _ => none
  | .runReturn k =>
    match s.runs.lookup k with
    | some ⟨_, false⟩ => some (.ok { s with runs := s.runs.erase k })
    | _ => none
  | .runExit k =>
    match s.runs.lookup k with
    | some ⟨t, true⟩ =>
      match s.taskOutputs.lookup t with
      | none => some (.error errNilDereference)
      | some out =>
        some (.ok { s with taskOutputs := s.taskOutputs.erase t, finished := out :: s.finished,
                           runs := s.runs.erase k })
    | _ => none

/-- The steps of a whole interleaving. The result is `none` when a step is not enabled, and the
panic when a step panics. -/
def runActions : TaskOutputs → List Action → Option (Except Error TaskOutputs)
  | s, [] => some (.ok s)
  | s, a :: as =>
    match step s a with
    | some (.ok s') => runActions s' as
    | res => res

/-- The scheduler's side: a `Run` is entered only for a task that no `Run` in flight runs. -/
def Action.Exclusive (s : TaskOutputs) : Action → Prop
  | .runEnter _ t => ∀ c ∈ s.runs.entries, c.2.task ≠ t
  | _ => True

instance (s : TaskOutputs) : (a : Action) → Decidable (a.Exclusive s)
  | .runEnter _ t => inferInstanceAs (Decidable (∀ c ∈ s.runs.entries, c.2.task ≠ t))
  | .register _ | .runReturn _ | .runExit _ => isTrue trivial

/-- The states of the interleavings from a new runner in which the scheduler never runs a task
twice at once. -/
inductive Reachable : TaskOutputs → Prop
  | init : Reachable {}
  | step {s s' : TaskOutputs} (a : Action) :
      Reachable s → a.Exclusive s → step s a = some (.ok s') → Reachable s'

/-! ## The invariant -/

/-- What every reachable state keeps. The calls in flight run distinct tasks. An entry of
`taskOutputs` is the output of the registered call in flight on that task. A flushed output
belongs to a call that has returned. -/
structure Inv (s : TaskOutputs) : Prop where
  runsEntered : ∀ k ∈ s.runs, k ∈ s.entered
  finishedEntered : ∀ k ∈ s.finished, k ∈ s.entered
  finishedReturned : ∀ k ∈ s.finished, k ∉ s.runs
  finishedNodup : s.finished.Nodup
  taskInj : ∀ k k' c c', s.runs.lookup k = some c → s.runs.lookup k' = some c' →
    c.task = c'.task → k = k'
  outputs : ∀ t k, s.taskOutputs.lookup t = some k ↔ s.runs.lookup k = some ⟨t, true⟩

theorem inv_init : Inv {} :=
  ⟨fun _ h => absurd h (AList.not_mem_empty _), fun _ h => (nomatch h), fun _ h => (nomatch h), .nil,
    fun _ _ _ _ h => (nomatch h), fun _ _ => ⟨fun h => (nomatch h), fun h => (nomatch h)⟩⟩

section Steps

variable {s : TaskOutputs} (hs : Inv s) {k : Nat}
include hs

/-- The call in flight on the task of a call in flight is that call. -/
theorem Inv.eq_of_task {k' : Nat} {c c' : RunCall} (hl : s.runs.lookup k = some c)
    (h : s.runs.lookup k' = some c') (he : c'.task = c.task) : k' = k :=
  hs.taskInj k' k c' c h hl he

theorem Inv.runEnter {t : Nat} (hk : k ∉ s.entered) (ht : ∀ c ∈ s.runs.entries, c.2.task ≠ t) :
    Inv { s with runs := s.runs.insert k ⟨t, false⟩, entered := k :: s.entered } := by
  -- the new call is not in flight, and no call in flight runs its task
  have hk0 : k ∉ s.runs := fun h => hk (hs.runsEntered k h)
  have hne : ∀ k' c, s.runs.lookup k' = some c → c.task ≠ t := fun k' c h =>
    ht ⟨k', c⟩ (AList.mem_lookup_iff.1 h)
  refine ⟨fun k' h => ?_, fun k' h => List.mem_cons_of_mem _ (hs.finishedEntered k' h),
    fun k' h => ?_, hs.finishedNodup, fun k₁ k₂ c₁ c₂ h₁ h₂ he => ?_, fun t' k' => ?_⟩ <;>
    dsimp only at *
  · rcases (AList.mem_insert _).1 h with rfl | h
    · exact List.mem_cons_self _ _
    · exact List.mem_cons_of_mem _ (hs.runsEntered k' h)
  · rw [AList.mem_insert, not_or]
    exact ⟨fun e => hk (e ▸ hs.finishedEntered k' h), hs.finishedReturned k' h⟩
  · rw [GoMap.lookup_insert_eq_some] at h₁ h₂
    rcases h₁ with ⟨rfl, rfl⟩ | ⟨-, h₁⟩ <;> rcases h₂ with ⟨rfl, rfl⟩ | ⟨-, h₂⟩
    · rfl
    · exact absurd he.symm (hne _ _ h₂)
    · exact absurd he (hne _ _ h₁)
    · exact hs.taskInj k₁ k₂ c₁ c₂ h₁ h₂ he
  · rw [GoMap.lookup_insert_eq_some, hs.outputs]
    simp only [RunCall.mk.injEq, Bool.false_eq_true, and_false, false_or]
    exact ⟨fun h => ⟨fun e => hk0 (e ▸ GoMap.mem_of_lookup_eq_some h), h⟩, And.right⟩

theorem Inv.register {t : Nat} (hl : s.runs.lookup k = some ⟨t, false⟩) :
    Inv { s with taskOutputs := s.taskOutputs.insert t k, runs := s.runs.insert k ⟨t, true⟩ } := by
  have hk : k ∈ s.runs := GoMap.mem_of_lookup_eq_some hl
  refine ⟨fun k' h => ?_, hs.finishedEntered, fun k' h => ?_, hs.finishedNodup,
    fun k₁ k₂ c₁ c₂ h₁ h₂ he => ?_, fun t' k' => ?_⟩ <;> dsimp only at *
  · rcases (AList.mem_insert _).1 h with rfl | h
    · exact hs.runsEntered k' hk
    · exact hs.runsEntered k' h
  · rw [AList.mem_insert, not_or]
    exact ⟨fun e => hs.finishedReturned k' h (e ▸ hk), hs.finishedReturned k' h⟩
  · rw [GoMap.lookup_insert_eq_some] at h₁ h₂
    rcases h₁ with ⟨rfl, rfl⟩ | ⟨-, h₁⟩ <;> rcases h₂ with ⟨rfl, rfl⟩ | ⟨-, h₂⟩
    · rfl
    · exact (hs.eq_of_task hl h₂ he.symm).symm
    · exact hs.eq_of_task hl h₁ he
    · exact hs.taskInj k₁ k₂ c₁ c₂ h₁ h₂ he
  · rw [GoMap.lookup_insert_eq_some, GoMap.lookup_insert_eq_some, hs.outputs]
    constructor
    · rintro (⟨rfl, rfl⟩ | ⟨-, h⟩)
      · exact .inl ⟨rfl, rfl⟩
      · exact .inr ⟨fun e => (by rw [e, hl] at h; cases h), h⟩
    · rintro (⟨rfl, h⟩ | ⟨e, h⟩)
      · obtain rfl : t = t' := congrArg RunCall.task h
        exact .inl ⟨rfl, rfl⟩
      · exact .inr ⟨fun ht => e (hs.eq_of_task hl h ht), h⟩

theorem Inv.runReturn {t : Nat} (hl : s.runs.lookup k = some ⟨t, false⟩) :
    Inv { s with runs := s.runs.erase k } := by
  refine ⟨fun k' h => hs.runsEntered k' (AList.mem_erase.1 h).2, hs.finishedEntered,
    fun k' h h' => hs.finishedReturned k' h (AList.mem_erase.1 h').2, hs.finishedNodup,
    fun k₁ k₂ c₁ c₂ h₁ h₂ he => ?_, fun t' k' => ?_⟩ <;> dsimp only at *
  · exact hs.taskInj k₁ k₂ c₁ c₂ (GoMap.lookup_erase_eq_some.1 h₁).2
      (GoMap.lookup_erase_eq_some.1 h₂).2 he
  · rw [GoMap.lookup_erase_eq_some, hs.outputs]
    exact ⟨fun h => ⟨fun e => (by rw [e, hl] at h; cases h), h⟩, And.right⟩

theorem Inv.runExit {t : Nat} (hl : s.runs.lookup k = some ⟨t, true⟩) :
    Inv { s with taskOutputs := s.taskOutputs.erase t, finished := k :: s.finished,
                 runs := s.runs.erase k } := by
  have hk : k ∈ s.runs := GoMap.mem_of_lookup_eq_some hl
  refine ⟨fun k' h => hs.runsEntered k' (AList.mem_erase.1 h).2, fun k' h => ?_, fun k' h h' => ?_,
    List.nodup_cons.2 ⟨fun h => hs.finishedReturned k h hk, hs.finishedNodup⟩,
    fun k₁ k₂ c₁ c₂ h₁ h₂ he => ?_, fun t' k' => ?_⟩ <;> dsimp only at *
  · rcases List.mem_cons.1 h with rfl | h
    · exact hs.runsEntered k' hk
    · exact hs.finishedEntered k' h
  · obtain ⟨e, h'⟩ := AList.mem_erase.1 h'
    exact hs.finishedReturned k' ((List.mem_cons.1 h).resolve_left e) h'
  · exact hs.taskInj k₁ k₂ c₁ c₂ (GoMap.lookup_erase_eq_some.1 h₁).2
      (GoMap.lookup_erase_eq_some.1 h₂).2 he
  · rw [GoMap.lookup_erase_eq_some, GoMap.lookup_erase_eq_some, hs.outputs]
    exact and_congr_left fun h =>
      ⟨fun ht e => (by rw [e, hl] at h; cases h; exact ht rfl), fun e ht => e (hs.eq_of_task hl h ht)⟩

/-- The deferred function finds the entry of its call: no step panics. -/
theorem Inv.step_ne_error (a : Action) (e : Error) : step s a ≠ some (.error e) := by
  cases a with
  | runExit k =>
    simp only [step]
    split
    · next t hl => rw [(hs.outputs t k).2 hl]; nofun
    · nofun
  | runEnter k t => simp only [step]; split <;> nofun
  | register k => simp only [step]; split <;> nofun
  | runReturn k => simp only [step]; split <;> nofun

theorem Inv.of_step {a : Action} {s' : TaskOutputs} (ha : a.Exclusive s)
    (h : step s a = some (.ok s')) : Inv s' := by
  cases a with
  | runEnter k t =>
    simp only [step] at h
    split at h
    · cases h
    · cases h; exact hs.runEnter ‹_› ha
  | register k =>
    simp only [step] at h
    split at h
    · cases h; exact hs.register ‹_›
    · cases h
  | runReturn k =>
    simp only [step] at h
    split at h
    · cases h; exact hs.runReturn ‹_›
    · cases h
  | runExit k =>
    simp only [step] at h
    split at h
    · next t hl =>
      rw [(hs.outputs t k).2 hl] at h
      cases h; exact hs.runExit hl
    · cases h

end Steps

theorem Reachable.inv {s : TaskOutputs} (hs : Reachable s) : Inv s := by
  induction hs with
  | init => exact inv_init
  | step a _ ha h ih => exact ih.of_step ha h

/-! ## Whole runs -/

/-- In every interleaving where the scheduler never runs a task twice at once, no step panics:
the deferred function of `Run` always finds its entry. `CurrentTaskOutput(t)` finds exactly the
output of the `Run` of `t` that has registered it and not yet returned, so it finds nothing when
no `Run` is in flight. Every output is flushed at most once, and only after its `Run` has
returned; no reader finds it after that. -/
theorem taskOutputs_safe {s : TaskOutputs} (hs : Reachable s) :
    (∀ a e, step s a ≠ some (.error e)) ∧
      (∀ t k, currentTaskOutput s t = some k ↔ s.runs.lookup k = some ⟨t, true⟩) ∧
      (s.runs = ∅ → ∀ t, currentTaskOutput s t = none) ∧
      s.finished.Nodup ∧
      ∀ k ∈ s.finished, s.runs.lookup k = none ∧ ∀ t, currentTaskOutput s t ≠ some k := by
  have hi := hs.inv
  refine ⟨hi.step_ne_error, hi.outputs, fun h t => ?_, hi.finishedNodup, fun k hk =>
    ⟨AList.lookup_eq_none.2 (hi.finishedReturned k hk), fun t ht => ?_⟩⟩
  · cases hc : currentTaskOutput s t with
    | none => rfl
    | some k => have := (hi.outputs t k).1 hc; rw [h] at this; cases this
  · exact hi.finishedReturned k hk (GoMap.mem_of_lookup_eq_some ((hi.outputs t k).1 ht))

/-- Two `Run`s of tasks 0 and 1 in flight, both registered: each task's reader finds the output
of its own `Run`. -/
theorem taskOutputs_safe_twoTasks :
    ∃ s, Reachable s ∧ currentTaskOutput s 0 = some 0 ∧ currentTaskOutput s 1 = some 1 := by
  have h : Reachable _ := (((Reachable.init.step (.runEnter 0 0) (by decide) rfl).step
    (.runEnter 1 1) (by decide) rfl).step (.register 0) trivial rfl).step (.register 1) trivial rfl
  obtain ⟨-, ho, -⟩ := taskOutputs_safe h
  exact ⟨_, h, (ho 0 0).2 rfl, (ho 1 1).2 rfl⟩

/- Without the exclusion the safety fails. Two overlapping `Run`s of one task: the first to
return flushes and deletes the output of the second while the second still runs, so its reader
finds nothing and its deferred function panics. -/
example :
    ∃ s, runActions {} [.runEnter 0 7, .runEnter 1 7, .register 0, .register 1, .runExit 0] =
        some (.ok s) ∧
      1 ∈ s.finished ∧ (s.runs.lookup 1).isSome ∧ currentTaskOutput s 7 = none ∧
      step s (.runExit 1) = some (.error errNilDereference) :=
  ⟨_, rfl, by decide, by decide, by decide, rfl⟩

end TaskOutputs

end Prunner.Taskctl

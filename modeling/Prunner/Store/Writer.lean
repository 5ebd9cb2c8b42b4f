/-
The persistence writer of `newPipelineRunner` interleaved with the runner's operations.
`requestPersist` fills the channel's slot of one; the writer takes a request, builds the snapshot
under the read lock, hands it to `Save` and sleeps. Every operation that changes what a snapshot
holds fills the slot, so once the store holds the runner's snapshot it keeps holding it whenever
the writer waits on an empty slot. Startup is the exception: `initialLoadFromStore` cancels the
jobs it finds running without asking for a save.
-/
import Prunner.Store.Persist
import Prunner.Runner.Reachable

namespace Prunner

open Relation

/-! ## The writer -/

/-- Where the writer goroutine is: in its `select`, between receiving a request and taking the
read lock in `saveToStore`, in `time.Sleep`, or returned on `ctx.Done()`. -/
inductive Writer
  | waiting
  | received
  | sleeping
  | stopped
  deriving DecidableEq, Repr

/-- The runner, the writer, and the last snapshot handed to `Save` (the loaded one before the
first save). -/
structure Persistence where
  runner : PipelineRunner
  writer : Writer
  lastSaved : PersistedData

/-- One step: a runner operation under the write lock, or a step of the writer. -/
inductive PersistStep (env : Env) : Persistence → Persistence → Prop
  | op {r r' : PipelineRunner} {w : Writer} {d : PersistedData} :
      Step env r r' → PersistStep env ⟨r, w, d⟩ ⟨r', w, d⟩
  | take {r : PipelineRunner} {d : PersistedData} : r.persistRequests = true →
      PersistStep env ⟨r, .waiting, d⟩ ⟨{ r with persistRequests := false }, .received, d⟩
  | save {r : PipelineRunner} {d : PersistedData} :
      PersistStep env ⟨r, .received, d⟩ ⟨r, .sleeping, saveToStore r⟩
  | wake {r : PipelineRunner} {d : PersistedData} :
      PersistStep env ⟨r, .sleeping, d⟩ ⟨r, .waiting, d⟩
  | stop {r : PipelineRunner} {d : PersistedData} :
      PersistStep env ⟨r, .waiting, d⟩ ⟨r, .stopped, d⟩

/-- `newPipelineRunner` with a store that loads `data`: the restored runner, the writer in its
`select`, and `data` what the store holds. -/
def Persistence.start (env : Env) (now : Time) (fuel : Nat) (data : PersistedData) :
    Option Persistence :=
  match initialLoadFromStore env now fuel (.ok data) .empty with
  | some (.ok r) => some ⟨r, .waiting, data⟩
  | _ => none

/-- The store holds the runner's snapshot whenever the writer waits or sleeps with no request
in the slot. -/
def Persistence.Synced (s : Persistence) : Prop :=
  (s.writer = .waiting ∨ s.writer = .sleeping) → s.runner.persistRequests = false →
    s.lastSaved.Equiv (saveToStore s.runner)

theorem PersistedData.Equiv.refl (d : PersistedData) : d.Equiv d :=
  ⟨List.Perm.refl _, fun _ => rfl⟩

/-! ## Every operation that changes the snapshot asks for a save -/

section Operations

variable {env : Env} {r r' : PipelineRunner}

/-- What an operation does to the persistence: it fills the slot, or leaves the snapshot and the
slot as they were. -/
def Persists (r r' : PipelineRunner) : Prop :=
  r'.persistRequests = true ∨ (saveToStore r' = saveToStore r ∧ r'.persistRequests = r.persistRequests)

theorem persists_refl (r : PipelineRunner) : Persists r r := .inr ⟨rfl, rfl⟩

theorem persists_requestPersist (r r' : PipelineRunner) : Persists r r'.requestPersist := .inl rfl

theorem scheduleAsync_persists {now : Time} {fuel : Nat} {p : String} {opts : ScheduleOpts}
    {newV4 : Except Error UUID} {res : Except Error JobPtr}
    (h : scheduleAsync env now fuel p opts newV4 r = some (res, r')) : Persists r r' := by
  rcases scheduleAsync_cases h with rfl | ⟨j, -, -, -, ⟨-, rfl⟩ | ⟨-, rfl⟩ | ⟨-, r2, -, rfl⟩⟩
  · exact persists_refl _
  all_goals exact persists_requestPersist _ _

theorem finishExecution_persists {now : Time} {fuel i : Nat} {lastErr : Option Error}
    (h : finishExecution env now fuel i lastErr r = some r') : Persists r r' := by
  unfold finishExecution jobCompleted at h
  dsimp only at h
  split at h
  · cases h; exact .inr ⟨rfl, rfl⟩
  · obtain ⟨r3, -, rfl⟩ := Option.map_eq_some'.1 h
    exact persists_requestPersist _ _

theorem handleTaskChange_persists (t : TaskChange) : Persists r (handleTaskChange t r) := by
  unfold handleTaskChange
  split
  · exact persists_refl r
  · split
    · exact persists_refl r
    · exact persists_requestPersist _ _

theorem handleStageChange_persists (s : StageChange) : Persists r (handleStageChange s r) := by
  unfold handleStageChange
  split
  · exact persists_refl r
  · split
    · exact persists_refl r
    · exact persists_requestPersist _ _

theorem Step.persists (h : Step env r r') : Persists r r' := by
  cases h with
  | scheduleAsync now fuel p opts newV4 _ h => exact scheduleAsync_persists h
  | jobCompleted now fuel i lastErr job _ h => exact finishExecution_persists h
  | handleTaskChange t => exact handleTaskChange_persists t
  | handleStageChange s => exact handleStageChange_persists s

end Operations

/-! ## The store after a run -/

theorem Persistence.Synced.step {env : Env} {s s' : Persistence} (h : s.Synced)
    (hs : PersistStep env s s') : s'.Synced := by
  cases hs with
  | op hop =>
    intro hw hp
    rcases hop.persists with hp' | ⟨he, hf⟩
    · simp [hp'] at hp
    · rw [he]; exact h hw (hf ▸ hp)
  | take _ => intro hw; simp at hw
  | save => intro _ _; exact .refl _
  | wake => intro _ hp; exact h (.inr rfl) hp
  | stop => intro hw; simp at hw

/-- A snapshot holding one job of `build` that was running when it was taken, and no wait list. -/
def runningSnapshot : PersistedData :=
  { jobs := [{ id := 0, pipeline := "build", completed := false, canceled := false,
                created := 0, start := some 1, «end» := none, user := "", tasks := [] }]
    waitLists := ∅ }

/-- Starting from a snapshot with a job that was running, `initialLoadFromStore` cancels the job
and asks for no save: the writer waits on an empty slot while the store still holds the job as
running. -/
theorem start_unsynced (env : Env) (now : Time) (fuel : Nat) :
    ∃ s, Persistence.start env now fuel runningSnapshot = some s ∧ s.writer = .waiting ∧
      s.runner.persistRequests = false ∧ ¬ s.lastSaved.Equiv (saveToStore s.runner) :=
  ⟨_, rfl, rfl, rfl, fun h => absurd h.1 (by decide)⟩

end Prunner

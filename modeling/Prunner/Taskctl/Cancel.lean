/-
Cancellation of the task runner: the first deferred function of `TaskRunner.Run`, which closes
`doneCh` when the runner is canceling, and `TaskRunner.Cancel`, which sets `canceling`, cancels
the context and then waits on `doneCh`. Each locked section is one step; the receive of `Cancel`
is a step of its own, enabled once `doneCh` is closed. Once a `Cancel` has been called, every
`Run` that finishes closes `doneCh` again, so two `Run`s in flight at a `Cancel` close it twice,
and the `Cancel` may return as soon as the first of them has finished.
-/
import Prunner.Basic

namespace Prunner.Taskctl

/-! ## The state and its steps -/

/-- What `Run`'s deferred function and `Cancel` read and write: `canceling`, whether `cancelFunc`
has canceled `ctx`, how many times `close(r.doneCh)` has run, the `Run` calls between their entry
and their deferred function, every `Run` call so far (each call is a new one), and the `Cancel`
calls blocked on `<-r.doneCh`, each with the `Run`s in flight when it was called. -/
structure Cancellation where
  canceling : Bool := false
  ctxCanceled : Bool := false
  closes : Nat := 0
  inFlight : List Nat := []
  entered : List Nat := []
  waiting : List (Nat × List Nat) := []
  deriving DecidableEq, Repr

/-- `doneCh` is closed. -/
def Cancellation.doneClosed (s : Cancellation) : Bool :=
  0 < s.closes

/-- A step of one goroutine: a `Run` call is entered, a `Run` runs its deferred function, a
`Cancel` call runs its locked section, or a `Cancel` call receives from `doneCh`. -/
inductive Action
  | runEnter (k : Nat)
  | runExit (k : Nat)
  | cancel (c : Nat)
  | cancelReturn (c : Nat)
  deriving DecidableEq, Repr

/-- One step, `none` when it is not enabled. The deferred function of `Run` closes `doneCh` when
`canceling` is set, whether or not it is closed already; the receive of `Cancel` completes only
on a closed `doneCh`, since nothing is ever sent on it. -/
def step (s : Cancellation) : Action → Option Cancellation
  | .runEnter k =>
    if k ∈ s.entered then none
    else some { s with inFlight := k :: s.inFlight, entered := k :: s.entered }
  | .runExit k =>
    if k ∈ s.inFlight then
      some { s with inFlight := s.inFlight.erase k,
                    closes := if s.canceling then s.closes + 1 else s.closes }
    else none
  | .cancel c =>
    if c ∈ s.waiting.map Prod.fst then none
    else some { s with canceling := true, ctxCanceled := s.ctxCanceled || !s.canceling,
                       waiting := (c, s.inFlight) :: s.waiting }
  | .cancelReturn c =>
    match s.waiting.find? (·.1 = c) with
    | none => none
    | some call => if s.doneClosed then some { s with waiting := s.waiting.erase call } else none

/-- The steps of a whole interleaving, `none` when one of them is not enabled. -/
def runActions : Cancellation → List Action → Option Cancellation
  | s, [] => some s
  | s, a :: as => (step s a).bind (runActions · as)

/-- The states of every interleaving from a new runner. -/
def Reachable (s : Cancellation) : Prop :=
  ∃ as, runActions {} as = some s

/-! ## What every step keeps -/

/-- Erasing one member from a list takes at most one of the distinct members of `T` out of it. -/
theorem length_filter_mem_erase (k : Nat) (l : List Nat) :
    ∀ T : List Nat, T.Nodup →
      (T.filter (· ∈ l)).length ≤ (T.filter (· ∈ l.erase k)).length + 1
  | [], _ => Nat.zero_le _
  | x :: T, hT => by
    rw [List.nodup_cons] at hT
    have ih := length_filter_mem_erase k l T hT.2
    by_cases hx : x ∈ l.erase k
    · simp only [List.filter_cons, decide_eq_true_eq, hx, List.mem_of_mem_erase hx, if_true,
        List.length_cons]
      omega
    · by_cases hxl : x ∈ l
      · -- `x` is the member erased, so no other member of `T` is
        have hxk : x = k := by
          by_contra hne; exact hx ((List.mem_erase_of_ne hne).2 hxl)
        have hsame : T.filter (· ∈ l.erase k) = T.filter (· ∈ l) := List.filter_congr fun y hy => by
          have hyk : y ≠ k := fun h => hT.1 (hxk ▸ h ▸ hy)
          simp only [List.mem_erase_of_ne hyk]
        simp only [List.filter_cons, decide_eq_true_eq, hx, hxl, if_true, if_false,
          List.length_cons, hsame, le_refl]
      · simp only [List.filter_cons, decide_eq_true_eq, hx, hxl, if_false]
        exact ih


section Steps

variable {s s' : Cancellation} {a : Action}

/-- `canceling` is never cleared. -/
theorem step_canceling (h : step s a = some s') (hc : s.canceling = true) :
    s'.canceling = true := by
  cases a <;> simp only [step] at h <;> split at h <;> (try split at h) <;> cases h <;> simp [hc]

/-- A `Cancel` call waits only once `canceling` is set. -/
theorem step_waiting (h : step s a = some s') (hw : s.waiting ≠ [] → s.canceling = true) :
    s'.waiting ≠ [] → s'.canceling = true := by
  cases a with
  | runEnter k => simp only [step] at h; split at h <;> cases h; exact hw
  | runExit k => simp only [step] at h; split at h <;> cases h; exact hw
  | cancel c => simp only [step] at h; split at h <;> cases h; exact fun _ => rfl
  | cancelReturn c =>
    simp only [step] at h
    split at h
    · cases h
    · split at h <;> cases h
      exact fun hne => hw fun h0 => hne (by rw [h0]; rfl)

/-- `close(r.doneCh)` runs once for each `Run` that finishes while `canceling` is set: with
`canceling` set, the closes plus the `Run`s of `T` in flight never decrease. -/
theorem step_closes {T : List Nat} (hT : T.Nodup) (h : step s a = some s') (hc : s.canceling = true) :
    s.closes + (T.filter (· ∈ s.inFlight)).length ≤
      s'.closes + (T.filter (· ∈ s'.inFlight)).length := by
  cases a with
  | runEnter k =>
    simp only [step] at h; split at h <;> cases h
    exact Nat.add_le_add_left (List.Sublist.length_le (List.monotone_filter_right _
      fun x hx => by simp only [decide_eq_true_eq, List.mem_cons] at hx ⊢; exact .inr hx)) _
  | runExit k =>
    simp only [step] at h; split at h <;> cases h
    simp only [hc, if_true]
    have := length_filter_mem_erase k s.inFlight T hT
    omega
  | cancel c => simp only [step] at h; split at h <;> cases h; exact le_refl _
  | cancelReturn c =>
    simp only [step] at h
    split at h
    · cases h
    · split at h <;> cases h; exact le_refl _

end Steps

/-! ## Whole interleavings -/

section Runs

variable {T : List Nat}

theorem runActions_canceling : ∀ {s s' : Cancellation} {as : List Action},
    runActions s as = some s' → s.canceling = true → s'.canceling = true
  | s, s', [], h, hc => by cases h; exact hc
  | s, s', a :: as, h, hc => by
    simp only [runActions] at h
    cases hs : step s a with
    | none => rw [hs] at h; cases h
    | some s₁ =>
      rw [hs, Option.some_bind] at h
      exact runActions_canceling h (step_canceling hs hc)

/-- Once `canceling` is set, `close(r.doneCh)` has run at least once more for each `Run` of `T`
that was in flight and has finished. -/
theorem runActions_closes (hT : T.Nodup) : ∀ {s s' : Cancellation} {as : List Action},
    runActions s as = some s' → s.canceling = true →
    s.closes + (T.filter (· ∈ s.inFlight)).length ≤
      s'.closes + (T.filter (· ∈ s'.inFlight)).length
  | s, s', [], h, _ => by cases h; exact le_refl _
  | s, s', a :: as, h, hc => by
    simp only [runActions] at h
    cases hs : step s a with
    | none => rw [hs] at h; cases h
    | some s₁ =>
      rw [hs, Option.some_bind] at h
      exact (step_closes hT hs hc).trans (runActions_closes hT h (step_canceling hs hc))

/-- In every reachable state a `Cancel` call waits only once `canceling` is set. -/
theorem Reachable.canceling_of_waiting {s : Cancellation} (hs : Reachable s) :
    s.waiting ≠ [] → s.canceling = true := by
  obtain ⟨as, h⟩ := hs
  suffices ∀ {s₀ : Cancellation} {as : List Action}, runActions s₀ as = some s →
      (s₀.waiting ≠ [] → s₀.canceling = true) → s.waiting ≠ [] → s.canceling = true from
    this h fun h0 => absurd rfl h0
  intro s₀ as h hw
  induction as generalizing s₀ with
  | nil => cases h; exact hw
  | cons a as ih =>
    simp only [runActions] at h
    cases hs : step s₀ a with
    | none => rw [hs] at h; cases h
    | some s₁ =>
      rw [hs, Option.some_bind] at h
      exact ih h (step_waiting hs hw)

end Runs

/-! ## `Cancel` with two `Run`s in flight -/

/-- A reachable state where a `Cancel` call `c` waits and two `Run`s `k₁ ≠ k₂` are in flight,
`k₂` since before `c` was called: `c` may return as soon as `k₁` has finished, with `k₂` still in
flight; and every interleaving after which both have finished has run `close(r.doneCh)` at least
twice. -/
theorem cancel_returns_early_closes_twice {s : Cancellation} (hs : Reachable s) {c : Nat}
    {S : List Nat} (hc : (c, S) ∈ s.waiting) {k₁ k₂ : Nat} (hne : k₁ ≠ k₂) (h₂ : k₂ ∈ S)
    (hf₁ : k₁ ∈ s.inFlight) (hf₂ : k₂ ∈ s.inFlight) :
    (∃ s', runActions s [.runExit k₁, .cancelReturn c] = some s' ∧ ∃ k ∈ S, k ∈ s'.inFlight) ∧
    ∀ as s', runActions s as = some s' → k₁ ∉ s'.inFlight → k₂ ∉ s'.inFlight → 2 ≤ s'.closes := by
  have hcan : s.canceling = true := hs.canceling_of_waiting (List.ne_nil_of_mem hc)
  refine ⟨?_, fun as s' h h₁ h₂' => ?_⟩
  · -- `k₁` finishes and closes `doneCh`, which lets `c` receive
    obtain ⟨call, hcall⟩ : ∃ call, s.waiting.find? (·.1 = c) = some call :=
      Option.isSome_iff_exists.1 (List.find?_isSome.2 ⟨(c, S), hc, by simp⟩)
    refine ⟨{ s with inFlight := s.inFlight.erase k₁, closes := s.closes + 1,
                     waiting := s.waiting.erase call },
      ?_, k₂, h₂, (List.mem_erase_of_ne (Ne.symm hne)).2 hf₂⟩
    simp [runActions, step, hf₁, hcan, hcall, Cancellation.doneClosed]
  · have := runActions_closes (T := [k₁, k₂]) (by simp [hne]) h hcan
    simp only [List.filter_cons, List.filter_nil, decide_eq_true_eq, hf₁, hf₂, h₁, h₂', if_true,
      if_false, List.length_cons, List.length_nil] at this
    omega

/-- Two `Run` calls entered, then a `Cancel` call. -/
def twoRunsCanceled : Cancellation :=
  { canceling := true, ctxCanceled := true, inFlight := [1, 0], entered := [1, 0],
    waiting := [(0, [1, 0])] }

theorem cancel_returns_early_closes_twice_twoRuns :
    (∃ s', runActions twoRunsCanceled [.runExit 0, .cancelReturn 0] = some s' ∧
        ∃ k ∈ [1, 0], k ∈ s'.inFlight) ∧
      ∀ as s', runActions twoRunsCanceled as = some s' → 0 ∉ s'.inFlight → 1 ∉ s'.inFlight →
        2 ≤ s'.closes :=
  cancel_returns_early_closes_twice ⟨[.runEnter 0, .runEnter 1, .cancel 0], rfl⟩ (c := 0) (S := [1, 0])
    (by decide) (by decide) (by decide) (by decide) (by decide)

end Prunner.Taskctl

import Mathlib.Data.Nat.Notation
import Mathlib.Logic.Function.Basic

/-!
# Threads of the executor

All threads run the same list of steps. A counter tells how many threads have
finished the current step; the last one resets it and moves on to the next step. A
forward starts a run by a new epoch and waits until the last thread has finished its
run. Every access to an atomic variable is one step here, in any order of threads.
The mutex and the condition variable only rule out orders: a thread that waits may
look again at any time.
-/

namespace LayerSkip.ExecutorBarrier

/-- Where a thread stands: what it does next. -/
inductive ThreadPc
  /-- Load `isShutdown` in the wait. -/
  | awaitShutdown
  /-- Load `epoch` in the wait. -/
  | awaitEpoch
  /-- Load `isShutdown` after the wait. -/
  | checkShutdown
  /-- Load `epoch` into the thread. -/
  | takeEpoch
  /-- Load `isAlive` at the head of the loop over the steps. -/
  | checkAlive
  /-- Load `currentStepIndex`. -/
  | loadStep
  /-- Begin with a step. -/
  | enterStep (currentStepIndex : ℕ)
  /-- Complete a step. -/
  | executeStep (currentStepIndex : ℕ)
  /-- Add one to `doneThreadCount`. -/
  | countThread (currentStepIndex : ℕ)
  /-- Set `doneThreadCount` to 0. -/
  | resetCount (currentStepIndex : ℕ)
  /-- Add one to `currentStepIndex`. -/
  | advanceStep (currentStepIndex : ℕ)
  /-- Load `currentStepIndex` while others are at the step. -/
  | spinStep (currentStepIndex : ℕ)
  /-- Load `isAlive` meanwhile. -/
  | spinAlive (currentStepIndex : ℕ)
  /-- Load `isShutdown` meanwhile. -/
  | spinShutdown (currentStepIndex : ℕ)
  /-- Load `epoch` meanwhile. -/
  | spinEpoch (currentStepIndex : ℕ)
  /-- Add one to `doneRunThreadCount`. -/
  | countRun
  /-- Set `isRunDone`. -/
  | setRunDone
  /-- The thread is over. -/
  | exited
  deriving DecidableEq, Repr

/-- A thread. -/
structure NnExecutorThread where
  /-- What it does next. -/
  pc : ThreadPc
  /-- The epoch it has taken last. -/
  localEpoch : UInt32
  deriving DecidableEq, Repr

/-- Where the thread that calls the executor stands. -/
inductive CallerPc
  /-- Between two forwards. -/
  | idle
  /-- Set `isAlive`. -/
  | storeAlive
  /-- Set `currentStepIndex` to 0. -/
  | storeStep
  /-- Set `doneThreadCount` to 0. -/
  | storeThreadCount
  /-- Set `doneRunThreadCount` to 0. -/
  | storeRunCount
  /-- Unset `isRunDone`. -/
  | storeRunDone
  /-- Add one to `epoch`. -/
  | bumpEpoch
  /-- Load `isShutdown` while threads run. -/
  | testShutdown
  /-- Load `isRunDone` while threads run. -/
  | testRunDone
  /-- Load `isAlive` while threads run. -/
  | testAlive
  /-- Unset `isAlive` after a stall. -/
  | timeoutAlive
  /-- Set `isRunDone` after a stall. -/
  | timeoutRunDone
  /-- Add one to `epoch` after a stall. -/
  | timeoutEpoch
  /-- Load `isAlive` after the run. -/
  | checkResult
  /-- The forward has thrown. The executor is not called again. -/
  | failed
  /-- Add one to `epoch` in the destructor. -/
  | destroyEpoch
  /-- The destructor waits for the threads. -/
  | joinThreads
  deriving DecidableEq, Repr

/-- The executor. -/
structure NnExecutor where
  /-- Number of the run. -/
  epoch : UInt32
  /-- The step all threads are at. -/
  currentStepIndex : ℕ
  /-- Threads that have finished the step. -/
  doneThreadCount : ℕ
  /-- Threads that have finished the run. -/
  doneRunThreadCount : ℕ
  /-- No thread has failed. -/
  isAlive : Bool
  /-- The executor is destroyed. -/
  isShutdown : Bool
  /-- All threads have finished the run. -/
  isRunDone : Bool
  /-- The threads. -/
  threads : ℕ → NnExecutorThread
  /-- The thread that calls. -/
  caller : CallerPc

/-- What can be seen of a run. -/
inductive Event
  /-- A forward is called. -/
  | call
  /-- A thread begins with a step. -/
  | start (threadIndex step : ℕ)
  /-- A thread completes a step. -/
  | finish (threadIndex step : ℕ)
  /-- The forward returns. -/
  | returned
  /-- The forward throws. -/
  | thrown
  deriving DecidableEq, Repr

namespace NnExecutor

/-- A new executor. -/
def init : NnExecutor where
  epoch := 0
  currentStepIndex := 0
  doneThreadCount := 0
  doneRunThreadCount := 0
  isAlive := true
  isShutdown := false
  isRunDone := true
  threads := fun _ => ⟨.awaitShutdown, 0⟩
  caller := .idle

variable (s : NnExecutor)

/-- A thread has moved on. -/
def goto (threadIndex : ℕ) (pc : ThreadPc) : NnExecutor :=
  { s with threads := Function.update s.threads threadIndex ⟨pc, (s.threads threadIndex).localEpoch⟩ }

/-- The next operation of a thread. -/
def threadStep (nThreads nSteps threadIndex : ℕ) : NnExecutor × List Event :=
  match (s.threads threadIndex).pc with
  | .awaitShutdown =>
    if s.isShutdown then (s.goto threadIndex .checkShutdown, [])
    else (s.goto threadIndex .awaitEpoch, [])
  | .awaitEpoch =>
    if s.epoch ≠ (s.threads threadIndex).localEpoch then (s.goto threadIndex .checkShutdown, [])
    else (s.goto threadIndex .awaitShutdown, [])
  | .checkShutdown =>
    if s.isShutdown then (s.goto threadIndex .exited, []) else (s.goto threadIndex .takeEpoch, [])
  | .takeEpoch =>
    ({ s with threads := Function.update s.threads threadIndex ⟨.checkAlive, s.epoch⟩ }, [])
  | .checkAlive =>
    if s.isAlive then (s.goto threadIndex .loadStep, []) else (s.goto threadIndex .countRun, [])
  | .loadStep =>
    if s.currentStepIndex = nSteps then (s.goto threadIndex .countRun, [])
    else (s.goto threadIndex (.enterStep s.currentStepIndex), [])
  | .enterStep currentStepIndex =>
    (s.goto threadIndex (.executeStep currentStepIndex), [.start threadIndex currentStepIndex])
  | .executeStep currentStepIndex =>
    (s.goto threadIndex (.countThread currentStepIndex), [.finish threadIndex currentStepIndex])
  | .countThread currentStepIndex =>
    let s' := { s with doneThreadCount := s.doneThreadCount + 1 }
    if s.doneThreadCount = nThreads - 1 then (s'.goto threadIndex (.resetCount currentStepIndex), [])
    else (s'.goto threadIndex (.spinStep currentStepIndex), [])
  | .resetCount currentStepIndex =>
    ({ s with doneThreadCount := 0 }.goto threadIndex (.advanceStep currentStepIndex), [])
  | .advanceStep _ =>
    ({ s with currentStepIndex := s.currentStepIndex + 1 }.goto threadIndex .checkAlive, [])
  | .spinStep currentStepIndex =>
    if s.currentStepIndex = currentStepIndex then
      (s.goto threadIndex (.spinAlive currentStepIndex), [])
    else (s.goto threadIndex .checkAlive, [])
  | .spinAlive currentStepIndex =>
    if s.isAlive then (s.goto threadIndex (.spinShutdown currentStepIndex), [])
    else (s.goto threadIndex .checkAlive, [])
  | .spinShutdown currentStepIndex =>
    if s.isShutdown then (s.goto threadIndex .checkAlive, [])
    else (s.goto threadIndex (.spinEpoch currentStepIndex), [])
  | .spinEpoch currentStepIndex =>
    if s.epoch = (s.threads threadIndex).localEpoch then
      (s.goto threadIndex (.spinStep currentStepIndex), [])
    else (s.goto threadIndex .checkAlive, [])
  | .countRun =>
    let s' := { s with doneRunThreadCount := s.doneRunThreadCount + 1 }
    if s.doneRunThreadCount = nThreads - 1 then (s'.goto threadIndex .setRunDone, [])
    else (s'.goto threadIndex .awaitShutdown, [])
  | .setRunDone => ({ s with isRunDone := true }.goto threadIndex .awaitShutdown, [])
  | .exited => (s, [])

/-- The next operation of a forward. -/
def callerStep : NnExecutor × List Event :=
  match s.caller with
  | .idle => ({ s with caller := .storeAlive }, [.call])
  | .storeAlive => ({ s with isAlive := true, caller := .storeStep }, [])
  | .storeStep => ({ s with currentStepIndex := 0, caller := .storeThreadCount }, [])
  | .storeThreadCount => ({ s with doneThreadCount := 0, caller := .storeRunCount }, [])
  | .storeRunCount => ({ s with doneRunThreadCount := 0, caller := .storeRunDone }, [])
  | .storeRunDone => ({ s with isRunDone := false, caller := .bumpEpoch }, [])
  | .bumpEpoch => ({ s with epoch := s.epoch + 1, caller := .testShutdown }, [])
  | .testShutdown =>
    ({ s with caller := if s.isShutdown then .checkResult else .testRunDone }, [])
  | .testRunDone => ({ s with caller := if s.isRunDone then .checkResult else .testAlive }, [])
  | .testAlive => ({ s with caller := if s.isAlive then .testShutdown else .checkResult }, [])
  | .timeoutAlive => ({ s with isAlive := false, caller := .timeoutRunDone }, [])
  | .timeoutRunDone => ({ s with isRunDone := true, caller := .timeoutEpoch }, [])
  | .timeoutEpoch => ({ s with epoch := s.epoch + 1, caller := .checkResult }, [])
  | .checkResult =>
    if s.isAlive then ({ s with caller := .idle }, [.returned])
    else ({ s with caller := .failed }, [.thrown])
  | .destroyEpoch => ({ s with epoch := s.epoch + 1, caller := .joinThreads }, [])
  | .failed => (s, [])
  | .joinThreads => (s, [])

/-- A forward gives up when no step has been completed for too long. The clock is not
modelled: this can happen whenever it has found the run not done. -/
def timeoutStep : NnExecutor × List Event :=
  if s.caller = .testAlive ∧ s.isAlive then ({ s with caller := .timeoutAlive }, []) else (s, [])

/-- The destructor. -/
def destroyStep : NnExecutor × List Event :=
  if s.caller = .idle ∨ s.caller = .failed then
    ({ s with isShutdown := true, caller := .destroyEpoch }, [])
  else (s, [])

end NnExecutor

/-- Who is next. -/
inductive Actor
  | thread (threadIndex : ℕ)
  | caller
  | timeout
  | destroy
  deriving DecidableEq, Repr

/-- One operation. -/
def step (nThreads nSteps : ℕ) (s : NnExecutor) : Actor → NnExecutor × List Event
  | .thread threadIndex =>
    if threadIndex < nThreads then s.threadStep nThreads nSteps threadIndex else (s, [])
  | .caller => s.callerStep
  | .timeout => s.timeoutStep
  | .destroy => s.destroyStep

/-- The executor after a schedule, and what has been seen. -/
def run (nThreads nSteps : ℕ) (schedule : List Actor) : NnExecutor × List Event :=
  schedule.foldl (fun r actor =>
    ((step nThreads nSteps r.1 actor).1, r.2 ++ (step nThreads nSteps r.1 actor).2))
    (NnExecutor.init, [])

theorem run_append_singleton (nThreads nSteps : ℕ) (schedule : List Actor) (actor : Actor) :
    run nThreads nSteps (schedule ++ [actor]) =
      ((step nThreads nSteps (run nThreads nSteps schedule).1 actor).1,
        (run nThreads nSteps schedule).2 ++ (step nThreads nSteps (run nThreads nSteps schedule).1 actor).2) := by
  unfold run
  rw [List.foldl_append]
  exact Eq.refl _

end LayerSkip.ExecutorBarrier

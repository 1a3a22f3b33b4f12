import LayerSkip.NnExecutor
import Mathlib.Algebra.Group.Nat.Defs
import Mathlib.Data.Finset.Card
import Mathlib.Data.Finset.Range
import Mathlib.Order.Interval.Finset.Nat

/-!
# The barrier between steps

While a forward runs, every thread has finished all steps before the current one and
no step after it. The counter of finished threads is the number of threads that have
finished the current step and have been counted, so only the last of them moves on.
-/

namespace LayerSkip.ExecutorBarrier

section Counting

variable {n t : ℕ} {p q : ℕ → Prop} [DecidablePred p] [DecidablePred q]

/-- Numbers below a bound with a property. -/
def countBelow (n : ℕ) (p : ℕ → Prop) [DecidablePred p] : ℕ := ((Finset.range n).filter p).card

theorem countBelow_congr (h : ∀ i < n, p i ↔ q i) : countBelow n p = countBelow n q :=
  congrArg Finset.card (Finset.filter_congr fun i hi => h i (Finset.mem_range.mp hi))

/-- One more number has the property. -/
theorem countBelow_succ (ht : t < n) (hp : ¬p t) (hq : q t) (h : ∀ i < n, i ≠ t → (p i ↔ q i)) :
    countBelow n q = countBelow n p + 1 := by
  have hinsert : (Finset.range n).filter q = insert t ((Finset.range n).filter p) := by
    ext i
    rw [Finset.mem_insert, Finset.mem_filter, Finset.mem_filter, Finset.mem_range]
    constructor
    · intro ⟨hi, hqi⟩
      by_cases hit : i = t
      · exact Or.inl hit
      · exact Or.inr ⟨hi, (h i hi hit).mpr hqi⟩
    · intro hi
      cases hi with
      | inl heq => exact heq ▸ ⟨ht, hq⟩
      | inr hmem =>
        have hne : i ≠ t := fun heq => hp (heq ▸ hmem.2)
        exact ⟨hmem.1, (h i hmem.1 hne).mp hmem.2⟩
  have hnot : t ∉ (Finset.range n).filter p := fun hmem => hp (Finset.mem_filter.mp hmem).2
  unfold countBelow
  rw [hinsert, Finset.card_insert_of_notMem hnot]

/-- All numbers have the property when as many as there are have it. -/
theorem countBelow_eq_iff : countBelow n p = n ↔ ∀ i < n, p i := by
  have hcard := Finset.card_filter_eq_iff (s := Finset.range n) (p := p)
  rw [Finset.card_range] at hcard
  unfold countBelow
  rw [hcard]
  exact ⟨fun h i hi => h i (Finset.mem_range.mpr hi), fun h i hi => h i (Finset.mem_range.mp hi)⟩

theorem countBelow_eq_zero (h : ∀ i < n, ¬p i) : countBelow n p = 0 := by
  unfold countBelow
  rw [Finset.card_eq_zero, Finset.filter_eq_empty_iff]
  exact fun i hi => h i (Finset.mem_range.mp hi)

end Counting

section Places

/-- The thread is about to be counted. -/
def ThreadPc.counting : ThreadPc → Bool
  | .countThread _ => true
  | _ => false

/-- The thread is the last at its step. -/
def ThreadPc.last : ThreadPc → Bool
  | .resetCount _ => true
  | .advanceStep _ => true
  | _ => false

/-- The thread is about to move on to the next step. -/
def ThreadPc.advancing : ThreadPc → Bool
  | .advanceStep _ => true
  | _ => false

/-- The thread waits for a forward. -/
def ThreadPc.waiting : ThreadPc → Bool
  | .awaitShutdown => true
  | .awaitEpoch => true
  | _ => false

variable (s : NnExecutor)

/-- A thread of the current run. -/
def Inside (x : NnExecutorThread) : Prop := s.isShutdown = false ∧ x.localEpoch = s.epoch

/-- Where a thread can be that has finished so many steps of the forward. -/
def Place (nSteps finished : ℕ) (x : NnExecutorThread) : Prop :=
  match x.pc with
  | .awaitShutdown | .awaitEpoch => s.isAlive = true → s.isShutdown = false →
    x.localEpoch + 1 = s.epoch ∧ finished = 0 ∨ x.localEpoch = s.epoch ∧ finished = nSteps
  | .checkShutdown => s.isAlive = true → s.isShutdown = false →
    x.localEpoch + 1 = s.epoch ∧ finished = 0
  | .takeEpoch => s.isAlive = true → s.isShutdown = false ∧ finished = 0
  | .checkAlive => s.isAlive = true → Inside s x ∧ finished = s.currentStepIndex
  | .loadStep => (s.isAlive = true → Inside s x) ∧ finished = s.currentStepIndex
  | .enterStep step | .executeStep step =>
    (s.isAlive = true → Inside s x) ∧ step = s.currentStepIndex ∧ finished = step ∧ step < nSteps
  | .countThread step | .resetCount step | .advanceStep step =>
    (s.isAlive = true → Inside s x) ∧ step = s.currentStepIndex ∧ finished = step + 1
  | .spinStep step | .spinAlive step | .spinShutdown step | .spinEpoch step =>
    (s.isAlive = true → Inside s x) ∧ finished = step + 1 ∧
      (step = s.currentStepIndex ∨ step + 1 = s.currentStepIndex)
  | .countRun | .setRunDone => s.isAlive = true → Inside s x ∧ finished = nSteps
  | .exited => True

/-- A thread has finished the current step and has been counted. -/
def Counted (finished : ℕ → ℕ) (t : ℕ) : Prop :=
  finished t = s.currentStepIndex + 1 ∧ (s.threads t).pc.counting = false

instance (finished : ℕ → ℕ) : DecidablePred (Counted s finished) := fun _ =>
  inferInstanceAs (Decidable (_ ∧ _))

/-- The barrier, for the numbers of steps the threads have finished. -/
structure Barrier (nThreads nSteps : ℕ) (finished : ℕ → ℕ) : Prop where
  /-- Threads have finished the steps before the current one, and at most that one. -/
  range : ∀ t < nThreads, s.currentStepIndex ≤ finished t ∧ finished t ≤ s.currentStepIndex + 1 ∧
    finished t ≤ nSteps
  /-- Threads are where they can be. -/
  place : ∀ t < nThreads, Place s nSteps (finished t) (s.threads t)
  /-- The last thread is the only one, and all have been counted. -/
  last : ∀ t < nThreads, (s.threads t).pc.last = true →
    ∀ i < nThreads, Counted s finished i ∧ (i ≠ t → (s.threads i).pc.last = false)
  /-- The counter counts. -/
  count : (∀ t < nThreads, (s.threads t).pc.advancing = false) →
    s.doneThreadCount = countBelow nThreads (Counted s finished)
  /-- The counter has been reset before the next step. -/
  reset : ∀ t < nThreads, (s.threads t).pc.advancing = true → s.doneThreadCount = 0

end Places

section Records

/-- Events of a thread. -/
def Event.of (t : ℕ) : Event → Bool
  | .start threadIndex _ => threadIndex = t
  | .finish threadIndex _ => threadIndex = t
  | _ => false

/-- What a thread does in so many steps. -/
def stepsOf (t count : ℕ) : List Event :=
  (List.range count).flatMap fun step => [.start t step, .finish t step]

theorem stepsOf_succ (t count : ℕ) :
    stepsOf t (count + 1) = stepsOf t count ++ [.start t count, .finish t count] := by
  unfold stepsOf
  rw [List.range_succ, List.flatMap_append, List.flatMap_singleton]

theorem stepsOf_mono (t : ℕ) {count more : ℕ} (h : count ≤ more) :
    stepsOf t count <+: stepsOf t more := by
  induction more with
  | zero =>
    exact Nat.le_zero.mp h ▸ List.prefix_refl _
  | succ more ih =>
    rcases Nat.lt_or_ge more count with hlt | hge
    · exact Nat.le_antisymm h hlt ▸ List.prefix_refl _
    · rw [stepsOf_succ]
      exact (ih hge).trans (List.prefix_append _ _)

/-- The step that a thread has begun. -/
def begun (t : ℕ) : ThreadPc → List Event
  | .executeStep step => [.start t step]
  | _ => []

/-- What a thread has done in a forward. -/
def record (s : NnExecutor) (finished : ℕ → ℕ) (t : ℕ) : List Event :=
  stepsOf t (finished t) ++ begun t (s.threads t).pc

/-- Events are added to the records of the threads. -/
def Records (nThreads : ℕ) (s : NnExecutor) (finished : ℕ → ℕ) (s' : NnExecutor)
    (finished' : ℕ → ℕ) (events : List Event) : Prop :=
  ∀ i < nThreads, record s' finished' i = record s finished i ++ events.filter (Event.of i)

end Records

section Moves

variable {s : NnExecutor} {nThreads nSteps t : ℕ} {finished : ℕ → ℕ}

/-- A thread has moved on. -/
def NnExecutor.move (s : NnExecutor) (t : ℕ) (x : NnExecutorThread) : NnExecutor :=
  { s with threads := Function.update s.threads t x }

@[simp] theorem move_self (x : NnExecutorThread) : (s.move t x).threads t = x := by
  unfold NnExecutor.move
  exact Function.update_self t x s.threads

theorem move_other {i : ℕ} (x : NnExecutorThread) (h : i ≠ t) :
    (s.move t x).threads i = s.threads i := by
  unfold NnExecutor.move
  exact Function.update_of_ne h x s.threads

theorem goto_eq (pc : ThreadPc) : s.goto t pc = s.move t ⟨pc, (s.threads t).localEpoch⟩ :=
  Eq.refl _

/-- A thread moves on and nothing is counted. -/
theorem Barrier.move (h : Barrier s nThreads nSteps finished) {x : NnExecutorThread}
    (hplace : Place s nSteps (finished t) x)
    (hcounting : x.pc.counting = (s.threads t).pc.counting)
    (hlast : x.pc.last = (s.threads t).pc.last)
    (hadvancing : x.pc.advancing = (s.threads t).pc.advancing) :
    Barrier (s.move t x) nThreads nSteps finished := by
  have hsame (i : ℕ) : ((s.move t x).threads i).pc.counting = (s.threads i).pc.counting ∧
      ((s.move t x).threads i).pc.last = (s.threads i).pc.last ∧
      ((s.move t x).threads i).pc.advancing = (s.threads i).pc.advancing := by
    by_cases hit : i = t
    · rw [hit, move_self]
      exact ⟨hcounting, hlast, hadvancing⟩
    · rw [move_other x hit]
      exact ⟨Eq.refl _, Eq.refl _, Eq.refl _⟩
  have hcounted (i : ℕ) : Counted (s.move t x) finished i ↔ Counted s finished i := by
    unfold Counted
    rw [(hsame i).1]
    exact Iff.rfl
  refine ⟨h.range, ?_, ?_, ?_, ?_⟩
  · intro i hi
    by_cases hit : i = t
    · rw [hit, move_self]
      exact hplace
    · rw [move_other x hit]
      exact h.place i hi
  · intro i hi hpc j hj
    rw [(hsame i).2.1] at hpc
    rw [hcounted, (hsame j).2.1]
    exact h.last i hi hpc j hj
  · intro hnone
    have hcount := h.count fun i hi => (hsame i).2.2 ▸ hnone i hi
    exact hcount.trans (countBelow_congr fun i _ => (hcounted i).symm)
  · intro i hi hpc
    rw [(hsame i).2.2] at hpc
    exact h.reset i hi hpc

/-- A thread moves on without an event. -/
theorem records_move (x : NnExecutorThread) (hbegun : begun t x.pc = begun t (s.threads t).pc) :
    Records nThreads s finished (s.move t x) finished [] := by
  intro i _
  unfold record
  rw [List.filter_nil, List.append_nil]
  by_cases hit : i = t
  · rw [hit, move_self, hbegun]
  · rw [move_other x hit]

/-- A thread begins with a step. -/
theorem Barrier.enter (h : Barrier s nThreads nSteps finished) {step : ℕ}
    (hpc : (s.threads t).pc = .enterStep step) (ht : t < nThreads) :
    Barrier (s.goto t (.executeStep step)) nThreads nSteps finished ∧
      Records nThreads s finished (s.goto t (.executeStep step)) finished [.start t step] := by
  have hplace := h.place t ht
  unfold Place at hplace
  rw [hpc] at hplace
  constructor
  · refine h.move hplace ?_ ?_ ?_ <;> rw [hpc] <;> exact Eq.refl _
  · intro i _
    unfold record
    rw [goto_eq]
    by_cases hit : i = t
    · have hfinished : finished t = step := hplace.2.2.1
      rw [hit, move_self, hpc, hfinished]
      simp [begun, Event.of]
    · rw [move_other _ hit]
      simp [Event.of, Ne.symm hit]

/-- A thread completes a step. -/
theorem Barrier.execute (h : Barrier s nThreads nSteps finished) {step : ℕ}
    (hpc : (s.threads t).pc = .executeStep step) (ht : t < nThreads) :
    Barrier (s.goto t (.countThread step)) nThreads nSteps
        (Function.update finished t (step + 1)) ∧
      Records nThreads s finished (s.goto t (.countThread step))
        (Function.update finished t (step + 1)) [.finish t step] := by
  have hplace := h.place t ht
  unfold Place at hplace
  rw [hpc] at hplace
  obtain ⟨hinside, hstep, hfinished, hlt⟩ := hplace
  rw [goto_eq]
  have hnotLast (i : ℕ) (hi : i < nThreads) : (s.threads i).pc.last = false := by
    cases hlast : (s.threads i).pc.last with
    | false => exact Eq.refl _
    | true =>
      have hcounted := (h.last i hi hlast t ht).1.1
      omega
  have hadvancing (i : ℕ) (hi : i < nThreads) : (s.threads i).pc.advancing = false := by
    have hnone := hnotLast i hi
    cases hx : (s.threads i).pc <;> rw [hx] at hnone <;> first | exact Eq.refl _ | cases hnone
  have hcounted (i : ℕ) : Counted (s.move t ⟨.countThread step, (s.threads t).localEpoch⟩)
      (Function.update finished t (step + 1)) i ↔ Counted s finished i := by
    unfold Counted
    by_cases hit : i = t
    · rw [hit, move_self]
      refine iff_of_false (fun hc => ?_) fun hc => ?_
      · cases hc.2
      · have := hc.1
        omega
    · rw [move_other _ hit, Function.update_of_ne hit]
      exact Iff.rfl
  constructor
  · refine ⟨?_, ?_, ?_, ?_, ?_⟩
    · intro i hi
      by_cases hit : i = t
      · rw [hit, Function.update_self]
        have hindex : (s.move t ⟨.countThread step, (s.threads t).localEpoch⟩).currentStepIndex =
          s.currentStepIndex := Eq.refl _
        omega
      · rw [Function.update_of_ne hit]
        exact h.range i hi
    · intro i hi
      by_cases hit : i = t
      · rw [hit, move_self, Function.update_self]
        exact ⟨hinside, hstep, Eq.refl _⟩
      · rw [move_other _ hit, Function.update_of_ne hit]
        exact h.place i hi
    · intro i hi hlast
      by_cases hit : i = t
      · rw [hit, move_self] at hlast
        cases hlast
      · rw [move_other _ hit, hnotLast i hi] at hlast
        cases hlast
    · intro _
      exact (h.count hadvancing).trans (countBelow_congr fun i _ => (hcounted i).symm)
    · intro i hi hlast
      by_cases hit : i = t
      · rw [hit, move_self] at hlast
        cases hlast
      · rw [move_other _ hit, hadvancing i hi] at hlast
        cases hlast
  · intro i _
    unfold record
    by_cases hit : i = t
    · rw [hit, move_self, Function.update_self, stepsOf_succ, hpc, hfinished]
      simp [begun, Event.of]
    · rw [move_other _ hit, Function.update_of_ne hit]
      simp [Event.of, Ne.symm hit]

/-- Counters that the barrier does not look at. -/
theorem Barrier.congr {s' : NnExecutor} (h : Barrier s nThreads nSteps finished)
    (hepoch : s'.epoch = s.epoch) (hstep : s'.currentStepIndex = s.currentStepIndex)
    (hcount : s'.doneThreadCount = s.doneThreadCount) (halive : s'.isAlive = s.isAlive)
    (hshutdown : s'.isShutdown = s.isShutdown) (hthreads : s'.threads = s.threads) :
    Barrier s' nThreads nSteps finished := by
  obtain ⟨epoch, index, count, runCount, alive, shutdown, runDone, threads, caller⟩ := s'
  dsimp only at hepoch hstep hcount halive hshutdown hthreads
  subst hepoch hstep hcount halive hshutdown hthreads
  exact ⟨h.range, h.place, h.last, h.count, h.reset⟩

/-- Nobody is the last while a thread has not been counted. -/
theorem Barrier.not_last (h : Barrier s nThreads nSteps finished) (ht : t < nThreads)
    (hnot : ¬Counted s finished t) {i : ℕ} (hi : i < nThreads) :
    (s.threads i).pc.last = false ∧ (s.threads i).pc.advancing = false := by
  cases hlast : (s.threads i).pc.last with
  | true => exact absurd (h.last i hi hlast t ht).1 hnot
  | false =>
    refine ⟨Eq.refl _, ?_⟩
    cases hx : (s.threads i).pc <;> rw [hx] at hlast <;> first | exact Eq.refl _ | cases hlast

/-- A thread is counted. -/
theorem Barrier.countThread (h : Barrier s nThreads nSteps finished) {step : ℕ}
    (hpc : (s.threads t).pc = .countThread step) (ht : t < nThreads) {pc : ThreadPc}
    (hnext : pc = if s.doneThreadCount = nThreads - 1 then .resetCount step else .spinStep step) :
    Barrier ({ s with doneThreadCount := s.doneThreadCount + 1 }.goto t pc) nThreads nSteps
      finished := by
  have hplace := h.place t ht
  unfold Place at hplace
  rw [hpc] at hplace
  obtain ⟨hinside, hstep, hfinished⟩ := hplace
  have hnot : ¬Counted s finished t := by
    intro hc
    have hcounting := hc.2
    rw [hpc] at hcounting
    cases hcounting
  have hnone (i : ℕ) (hi : i < nThreads) := h.not_last ht hnot hi
  have hcount := h.count fun i hi => (hnone i hi).2
  have hself : (({ s with doneThreadCount := s.doneThreadCount + 1 }.goto t pc).threads t).pc = pc := by
    rw [goto_eq, move_self]
  have hother (i : ℕ) (hit : i ≠ t) :
      ({ s with doneThreadCount := s.doneThreadCount + 1 }.goto t pc).threads i = s.threads i := by
    rw [goto_eq, move_other _ hit]
  have hcounting : pc.counting = false ∧ pc.advancing = false := by
    rw [hnext]
    split <;> exact ⟨Eq.refl _, Eq.refl _⟩
  have hcounted (i : ℕ) (hit : i ≠ t) :
      Counted s finished i ↔
        Counted ({ s with doneThreadCount := s.doneThreadCount + 1 }.goto t pc) finished i := by
    unfold Counted
    rw [hother i hit]
    exact Iff.rfl
  have hone : Counted ({ s with doneThreadCount := s.doneThreadCount + 1 }.goto t pc) finished t := by
    unfold Counted
    rw [hself]
    exact ⟨hstep ▸ hfinished, hcounting.1⟩
  have htotal := countBelow_succ ht hnot hone fun i _ hit => hcounted i hit
  refine ⟨h.range, ?_, ?_, ?_, ?_⟩
  · intro i hi
    by_cases hit : i = t
    · rw [hit, goto_eq, move_self]
      rw [hnext]
      split
      · exact ⟨hinside, hstep, hfinished⟩
      · exact ⟨hinside, hfinished, Or.inl hstep⟩
    · rw [hother i hit]
      exact h.place i hi
  · intro i hi hlast
    by_cases hit : i = t
    · rw [hit, hself, hnext] at hlast
      split at hlast
      · rename_i hlastCount
        have hall := countBelow_eq_iff.mp (htotal.trans (by omega))
        intro j hj
        refine ⟨hall j hj, fun hji => ?_⟩
        rw [hother j fun hjt => hji (hjt.trans hit.symm)]
        exact (hnone j hj).1
      · cases hlast
    · rw [hother i hit, (hnone i hi).1] at hlast
      cases hlast
  · intro _
    exact (congrArg (· + 1) hcount).trans htotal.symm
  · intro i hi hadvancing
    by_cases hit : i = t
    · rw [hit, hself, hcounting.2] at hadvancing
      cases hadvancing
    · rw [hother i hit, (hnone i hi).2] at hadvancing
      cases hadvancing

/-- The last thread resets the counter. -/
theorem Barrier.resetCount (h : Barrier s nThreads nSteps finished) {step : ℕ}
    (hpc : (s.threads t).pc = .resetCount step) (ht : t < nThreads) :
    Barrier ({ s with doneThreadCount := 0 }.goto t (.advanceStep step)) nThreads nSteps
      finished := by
  have hplace := h.place t ht
  unfold Place at hplace
  rw [hpc] at hplace
  have hall := h.last t ht (by rw [hpc]; exact Eq.refl _)
  have hself : ({ s with doneThreadCount := 0 }.goto t (.advanceStep step)).threads t =
      ⟨.advanceStep step, (s.threads t).localEpoch⟩ := by
    rw [goto_eq, move_self]
  have hother (i : ℕ) (hit : i ≠ t) :
      ({ s with doneThreadCount := 0 }.goto t (.advanceStep step)).threads i = s.threads i := by
    rw [goto_eq, move_other _ hit]
  have hcounted (i : ℕ) (hi : i < nThreads) :
      Counted ({ s with doneThreadCount := 0 }.goto t (.advanceStep step)) finished i := by
    refine ⟨(hall i hi).1.1, ?_⟩
    by_cases hit : i = t
    · rw [hit, hself]
      exact Eq.refl _
    · rw [hother i hit]
      exact (hall i hi).1.2
  refine ⟨h.range, ?_, ?_, ?_, fun _ _ _ => Eq.refl _⟩
  · intro i hi
    by_cases hit : i = t
    · rw [hit, hself]
      exact hplace
    · rw [hother i hit]
      exact h.place i hi
  · intro i hi hlast j hj
    refine ⟨hcounted j hj, fun hji => ?_⟩
    by_cases hit : i = t
    · have hjt : j ≠ t := fun hjt => hji (hjt.trans hit.symm)
      rw [hother j hjt]
      exact (hall j hj).2 hjt
    · rw [hother i hit, (hall i hi).2 hit] at hlast
      cases hlast
  · intro hnone
    have hadvancing := hnone t ht
    rw [hself] at hadvancing
    cases hadvancing

/-- A thread that has been counted can be where it is in the next step. -/
theorem Place.advance {x : NnExecutorThread} {count : ℕ} (h : Place s nSteps count x)
    (hcount : count = s.currentStepIndex + 1) (hlast : x.pc.last = false)
    (hcounting : x.pc.counting = false) :
    Place { s with currentStepIndex := s.currentStepIndex + 1 } nSteps count x := by
  obtain ⟨pc, localEpoch⟩ := x
  cases pc with
  | awaitShutdown | awaitEpoch | checkShutdown | takeEpoch | countRun | setRunDone | exited => exact h
  | checkAlive =>
    intro halive
    have hother : count = s.currentStepIndex := (h halive).2
    omega
  | loadStep =>
    have hother : count = s.currentStepIndex := h.2
    omega
  | enterStep step | executeStep step =>
    have hstep : step = s.currentStepIndex := h.2.1
    have hother : count = step := h.2.2.1
    omega
  | countThread step => cases hcounting
  | resetCount step | advanceStep step => cases hlast
  | spinStep step | spinAlive step | spinShutdown step | spinEpoch step =>
    have hother : count = step + 1 := h.2.1
    exact ⟨h.1, hother, Or.inr (hother.symm.trans hcount)⟩

/-- The last thread moves on to the next step. -/
theorem Barrier.advanceStep (h : Barrier s nThreads nSteps finished) {step : ℕ}
    (hpc : (s.threads t).pc = .advanceStep step) (ht : t < nThreads) :
    Barrier ({ s with currentStepIndex := s.currentStepIndex + 1 }.goto t .checkAlive) nThreads
      nSteps finished := by
  have hplace := h.place t ht
  unfold Place at hplace
  rw [hpc] at hplace
  obtain ⟨hinside, hstep, hfinished⟩ := hplace
  have hall := h.last t ht (by rw [hpc]; exact Eq.refl _)
  have hzero := h.reset t ht (by rw [hpc]; exact Eq.refl _)
  have hself : ({ s with currentStepIndex := s.currentStepIndex + 1 }.goto t .checkAlive).threads t =
      ⟨.checkAlive, (s.threads t).localEpoch⟩ := by
    rw [goto_eq, move_self]
  have hother (i : ℕ) (hit : i ≠ t) :
      ({ s with currentStepIndex := s.currentStepIndex + 1 }.goto t .checkAlive).threads i =
        s.threads i := by
    rw [goto_eq, move_other _ hit]
  have hnotLast (i : ℕ) (hi : i < nThreads) :
      (({ s with currentStepIndex := s.currentStepIndex + 1 }.goto t .checkAlive).threads i).pc.last =
        false := by
    by_cases hit : i = t
    · rw [hit, hself]
      exact Eq.refl _
    · rw [hother i hit]
      exact (hall i hi).2 hit
  refine ⟨?_, ?_, ?_, ?_, ?_⟩
  · intro i hi
    have hrange := h.range i hi
    have hdone := (hall i hi).1.1
    have hindex : ({ s with currentStepIndex := s.currentStepIndex + 1 }.goto t
      .checkAlive).currentStepIndex = s.currentStepIndex + 1 := Eq.refl _
    omega
  · intro i hi
    have hdone := (hall i hi).1
    by_cases hit : i = t
    · rw [hit, hself]
      intro halive
      exact ⟨hinside halive, by rw [hfinished, hstep]; exact Eq.refl _⟩
    · rw [hother i hit]
      have hx := h.place i hi
      exact hx.advance hdone.1 ((hall i hi).2 hit) hdone.2
  · intro i hi hlast
    rw [hnotLast i hi] at hlast
    cases hlast
  · intro _
    refine hzero.trans (countBelow_eq_zero fun i hi hc => ?_).symm
    have hdone := (hall i hi).1.1
    have hmore : finished i = s.currentStepIndex + 1 + 1 := hc.1
    omega
  · intro i hi _
    exact hzero

/-- The thread is not inside a step and nothing is about to be counted. -/
def ThreadPc.quiet : ThreadPc → Bool
  | .executeStep _ => false
  | .countThread _ => false
  | .resetCount _ => false
  | .advanceStep _ => false
  | _ => true

theorem ThreadPc.of_quiet {pc : ThreadPc} (h : pc.quiet = true) : pc.counting = false ∧
    pc.last = false ∧ pc.advancing = false ∧ begun t pc = [] := by
  cases pc <;> first | exact ⟨Eq.refl _, Eq.refl _, Eq.refl _, Eq.refl _⟩ | cases h

/-- The barrier after an operation of a thread. -/
def Kept (nThreads nSteps : ℕ) (s : NnExecutor) (finished : ℕ → ℕ) (r : NnExecutor × List Event) :
    Prop :=
  ∃ finished', Barrier r.1 nThreads nSteps finished' ∧ Records nThreads s finished r.1 finished' r.2

/-- A thread that is not inside a step moves on. -/
theorem Barrier.quiet (h : Barrier s nThreads nSteps finished) {x : NnExecutorThread} {pc : ThreadPc}
    (hpc : (s.threads t).pc = pc) (hold : pc.quiet = true) (hnew : x.pc.quiet = true)
    (hplace : Place s nSteps (finished t) x) :
    Kept nThreads nSteps s finished (s.move t x, []) := by
  have ⟨hcounting, hlast, hadvancing, hbegun⟩ := ThreadPc.of_quiet (t := t) hold
  rw [← hpc] at hcounting hlast hadvancing hbegun
  have ⟨hcounting', hlast', hadvancing', hbegun'⟩ := ThreadPc.of_quiet (t := t) hnew
  exact ⟨finished, h.move hplace (hcounting'.trans hcounting.symm) (hlast'.trans hlast.symm)
    (hadvancing'.trans hadvancing.symm), records_move x (hbegun'.trans hbegun.symm)⟩

theorem ThreadPc.quiet_of_waiting {pc : ThreadPc} (h : pc.waiting = true) : pc.quiet = true := by
  cases pc with
  | awaitShutdown | awaitEpoch => exact Eq.refl _
  | _ => cases h

/-- Threads that wait can be where they are once the executor is destroyed. -/
theorem Place.waiting {x : NnExecutorThread} {count : ℕ} (h : x.pc.waiting = true)
    (hshutdown : s.isShutdown = true) : Place s nSteps count x := by
  obtain ⟨pc, localEpoch⟩ := x
  cases pc with
  | awaitShutdown | awaitEpoch =>
    intro _ hnot
    rw [hshutdown] at hnot
    cases hnot
  | _ => cases h

/-- Records only depend on the threads. -/
theorem Records.congr {s' s'' : NnExecutor} {finished' : ℕ → ℕ} {events : List Event}
    (h : Records nThreads s finished s' finished' events) (hthreads : s''.threads = s'.threads) :
    Records nThreads s finished s'' finished' events := by
  intro i hi
  have hrecord := h i hi
  unfold record at hrecord ⊢
  rw [hthreads]
  exact hrecord

/-- Operations of threads keep the barrier. -/
theorem Barrier.threadStep (h : Barrier s nThreads nSteps finished) (ht : t < nThreads) :
    Kept nThreads nSteps s finished (s.threadStep nThreads nSteps t) := by
  have hplace := h.place t ht
  have hrange := h.range t ht
  unfold NnExecutor.threadStep
  unfold Place at hplace
  cases hpc : (s.threads t).pc with
  | awaitShutdown =>
    rw [hpc] at hplace
    dsimp only
    split
    · rename_i hshutdown
      refine h.quiet hpc (Eq.refl _) (Eq.refl _) fun _ hnot => ?_
      rw [hshutdown] at hnot
      cases hnot
    · exact h.quiet hpc (Eq.refl _) (Eq.refl _) hplace
  | awaitEpoch =>
    rw [hpc] at hplace
    dsimp only
    split
    · rename_i hepoch
      refine h.quiet hpc (Eq.refl _) (Eq.refl _) fun halive hshutdown => ?_
      cases hplace halive hshutdown with
      | inl hnew => exact hnew
      | inr hold => exact absurd hold.1.symm hepoch
    · exact h.quiet hpc (Eq.refl _) (Eq.refl _) hplace
  | checkShutdown =>
    rw [hpc] at hplace
    dsimp only
    split
    · exact h.quiet hpc (Eq.refl _) (Eq.refl _) trivial
    · rename_i hshutdown
      have hfalse : s.isShutdown = false := Bool.eq_false_iff.mpr hshutdown
      exact h.quiet hpc (Eq.refl _) (Eq.refl _) fun halive => ⟨hfalse, (hplace halive hfalse).2⟩
  | takeEpoch =>
    rw [hpc] at hplace
    refine h.quiet hpc (Eq.refl _) (Eq.refl _) fun halive => ⟨⟨(hplace halive).1, Eq.refl _⟩, ?_⟩
    have hnone := (hplace halive).2
    omega
  | checkAlive =>
    rw [hpc] at hplace
    dsimp only
    split
    · rename_i halive
      exact h.quiet hpc (Eq.refl _) (Eq.refl _) ⟨fun _ => (hplace halive).1, (hplace halive).2⟩
    · rename_i halive
      exact h.quiet hpc (Eq.refl _) (Eq.refl _) fun hnot => absurd hnot halive
  | loadStep =>
    rw [hpc] at hplace
    dsimp only
    split
    · rename_i hall
      exact h.quiet hpc (Eq.refl _) (Eq.refl _) fun halive => ⟨hplace.1 halive, hplace.2.trans hall⟩
    · rename_i hmore
      refine h.quiet hpc (Eq.refl _) (Eq.refl _) ⟨hplace.1, Eq.refl _, hplace.2, ?_⟩
      omega
  | enterStep step => exact ⟨finished, h.enter hpc ht⟩
  | executeStep step => exact ⟨_, h.execute hpc ht⟩
  | countThread step =>
    dsimp only
    split
    · rename_i hlast
      refine ⟨finished, h.countThread hpc ht (if_pos hlast).symm, ?_⟩
      refine Records.congr (records_move ⟨.resetCount step, (s.threads t).localEpoch⟩ ?_) (Eq.refl _)
      rw [hpc]
      exact Eq.refl _
    · rename_i hlast
      refine ⟨finished, h.countThread hpc ht (if_neg hlast).symm, ?_⟩
      refine Records.congr (records_move ⟨.spinStep step, (s.threads t).localEpoch⟩ ?_) (Eq.refl _)
      rw [hpc]
      exact Eq.refl _
  | resetCount step =>
    refine ⟨finished, h.resetCount hpc ht, Records.congr
      (records_move ⟨.advanceStep step, (s.threads t).localEpoch⟩ ?_) (Eq.refl _)⟩
    rw [hpc]
    exact Eq.refl _
  | advanceStep step =>
    refine ⟨finished, h.advanceStep hpc ht, Records.congr
      (records_move ⟨.checkAlive, (s.threads t).localEpoch⟩ ?_) (Eq.refl _)⟩
    rw [hpc]
    exact Eq.refl _
  | spinStep step =>
    rw [hpc] at hplace
    dsimp only
    split
    · exact h.quiet hpc (Eq.refl _) (Eq.refl _) hplace
    · rename_i hmoved
      refine h.quiet hpc (Eq.refl _) (Eq.refl _) fun halive => ⟨hplace.1 halive, ?_⟩
      have hstep := hplace.2
      omega
  | spinAlive step =>
    rw [hpc] at hplace
    dsimp only
    split
    · exact h.quiet hpc (Eq.refl _) (Eq.refl _) hplace
    · rename_i halive
      exact h.quiet hpc (Eq.refl _) (Eq.refl _) fun hnot => absurd hnot halive
  | spinShutdown step =>
    rw [hpc] at hplace
    dsimp only
    split
    · rename_i hshutdown
      refine h.quiet hpc (Eq.refl _) (Eq.refl _) fun halive => ?_
      have hnot := (hplace.1 halive).1
      rw [hshutdown] at hnot
      cases hnot
    · exact h.quiet hpc (Eq.refl _) (Eq.refl _) hplace
  | spinEpoch step =>
    rw [hpc] at hplace
    dsimp only
    split
    · exact h.quiet hpc (Eq.refl _) (Eq.refl _) hplace
    · rename_i hepoch
      exact h.quiet hpc (Eq.refl _) (Eq.refl _) fun halive => absurd (hplace.1 halive).2.symm hepoch
  | countRun =>
    rw [hpc] at hplace
    dsimp only
    split
    · obtain ⟨finished', hbarrier, hrecords⟩ := h.quiet (x := ⟨.setRunDone, (s.threads t).localEpoch⟩)
        hpc (Eq.refl _) (Eq.refl _) hplace
      exact ⟨finished', hbarrier.congr (Eq.refl _) (Eq.refl _) (Eq.refl _) (Eq.refl _) (Eq.refl _)
        (Eq.refl _), hrecords.congr (Eq.refl _)⟩
    · obtain ⟨finished', hbarrier, hrecords⟩ := h.quiet
        (x := ⟨.awaitShutdown, (s.threads t).localEpoch⟩) hpc (Eq.refl _) (Eq.refl _)
        fun halive _ => Or.inr ⟨(hplace halive).1.2, (hplace halive).2⟩
      exact ⟨finished', hbarrier.congr (Eq.refl _) (Eq.refl _) (Eq.refl _) (Eq.refl _) (Eq.refl _)
        (Eq.refl _), hrecords.congr (Eq.refl _)⟩
  | setRunDone =>
    rw [hpc] at hplace
    obtain ⟨finished', hbarrier, hrecords⟩ := h.quiet
      (x := ⟨.awaitShutdown, (s.threads t).localEpoch⟩) hpc (Eq.refl _) (Eq.refl _)
      fun halive _ => Or.inr ⟨(hplace halive).1.2, (hplace halive).2⟩
    exact ⟨finished', hbarrier.congr (Eq.refl _) (Eq.refl _) (Eq.refl _) (Eq.refl _) (Eq.refl _)
      (Eq.refl _), hrecords.congr (Eq.refl _)⟩
  | exited =>
    refine ⟨finished, h, ?_⟩
    intro i _
    rw [List.filter_nil, List.append_nil]

end Moves

section Runs

variable {s : NnExecutor} {nThreads nSteps t : ℕ} {finished : ℕ → ℕ}

/-- All threads wait for the next forward. -/
def Rest (nThreads : ℕ) (s : NnExecutor) : Prop :=
  ∀ t < nThreads, (s.threads t).pc.waiting = true ∧ (s.threads t).localEpoch = s.epoch

/-- The thread is at the end of a run. -/
def ThreadPc.ended : ThreadPc → Bool
  | .setRunDone => true
  | .awaitShutdown => true
  | .awaitEpoch => true
  | _ => false

theorem ThreadPc.ended_of_waiting {pc : ThreadPc} (h : pc.waiting = true) :
    pc.ended = true ∧ pc ≠ .setRunDone := by
  cases pc with
  | awaitShutdown | awaitEpoch =>
    refine ⟨Eq.refl _, ?_⟩
    intro heq
    cases heq
  | _ => cases h

theorem ThreadPc.waiting_of_ended {pc : ThreadPc} (h : pc.ended = true) (hne : pc ≠ .setRunDone) :
    pc.waiting = true := by
  cases pc with
  | awaitShutdown | awaitEpoch => exact Eq.refl _
  | setRunDone => exact absurd (Eq.refl _) hne
  | _ => cases h

/-- A thread has finished the run and has been counted. -/
def RunCounted (s : NnExecutor) (t : ℕ) : Prop :=
  (s.threads t).pc.ended = true ∧ (s.threads t).localEpoch = s.epoch

instance (s : NnExecutor) : DecidablePred (RunCounted s) := fun _ =>
  inferInstanceAs (Decidable (_ ∧ _))

/-- The end of a run. -/
structure RunEnd (nThreads : ℕ) (s : NnExecutor) : Prop where
  /-- The counter counts. -/
  count : s.doneRunThreadCount = countBelow nThreads (RunCounted s)
  /-- The last thread is the only one, and all have been counted. -/
  last : ∀ t < nThreads, (s.threads t).pc = .setRunDone →
    ∀ i < nThreads, RunCounted s i ∧ (i ≠ t → (s.threads i).pc ≠ .setRunDone)
  /-- When the run is done, all threads wait. -/
  done : s.isRunDone = true → Rest nThreads s

/-- Counters that the end of a run does not look at. -/
theorem RunEnd.congr {s' : NnExecutor} (h : RunEnd nThreads s) (hepoch : s'.epoch = s.epoch)
    (hcount : s'.doneRunThreadCount = s.doneRunThreadCount) (hdone : s'.isRunDone = s.isRunDone)
    (hthreads : s'.threads = s.threads) : RunEnd nThreads s' := by
  obtain ⟨epoch, index, count, runCount, alive, shutdown, runDone, threads, caller⟩ := s'
  dsimp only at hepoch hcount hdone hthreads
  subst hepoch hcount hdone hthreads
  exact ⟨h.count, h.last, h.done⟩

/-- A thread moves on and nobody is counted. -/
theorem RunEnd.move (h : RunEnd nThreads s) {x : NnExecutorThread} (hnew : x.pc ≠ .setRunDone)
    (hcounted : x.pc.ended = true ∧ x.localEpoch = s.epoch ↔ RunCounted s t)
    (hdone : s.isRunDone = true → x.pc.waiting = true ∧ x.localEpoch = s.epoch) :
    RunEnd nThreads (s.move t x) := by
  have hsame (i : ℕ) : RunCounted (s.move t x) i ↔ RunCounted s i := by
    by_cases hit : i = t
    · rw [hit]
      unfold RunCounted at hcounted ⊢
      rw [move_self]
      exact hcounted
    · unfold RunCounted
      rw [move_other x hit]
      exact Iff.rfl
  refine ⟨h.count.trans (countBelow_congr fun i _ => (hsame i).symm), ?_, ?_⟩
  · intro i hi hlast j hj
    by_cases hit : i = t
    · rw [hit, move_self] at hlast
      exact absurd hlast hnew
    · rw [move_other x hit] at hlast
      refine ⟨(hsame j).mpr (h.last i hi hlast j hj).1, fun hji => ?_⟩
      by_cases hjt : j = t
      · rw [hjt, move_self]
        exact hnew
      · rw [move_other x hjt]
        exact (h.last i hi hlast j hj).2 hji
  · intro hrun i hi
    by_cases hit : i = t
    · rw [hit, move_self]
      exact hdone hrun
    · rw [move_other x hit]
      exact h.done hrun i hi

/-- A thread moves on inside a run. -/
theorem RunEnd.inside (h : RunEnd nThreads s) (ht : t < nThreads) {x : NnExecutorThread} {pc : ThreadPc}
    (hpc : (s.threads t).pc = pc) (hold : pc.ended = false) (hnew : x.pc.ended = false) :
    RunEnd nThreads (s.move t x) := by
  refine h.move ?_ (iff_of_false ?_ ?_) fun hrun => ?_
  · intro heq
    rw [heq] at hnew
    cases hnew
  · intro hx
    rw [hnew] at hx
    cases hx.1
  · intro hx
    unfold RunCounted at hx
    rw [hpc, hold] at hx
    cases hx.1
  · have hended := (ThreadPc.ended_of_waiting (h.done hrun t ht).1).1
    rw [hpc, hold] at hended
    cases hended

/-- A thread that waits looks again. -/
theorem RunEnd.wait (h : RunEnd nThreads s) (ht : t < nThreads) {pc pc' : ThreadPc}
    (hpc : (s.threads t).pc = pc) (hold : pc.waiting = true) (hnew : pc'.waiting = true) :
    RunEnd nThreads (s.goto t pc') := by
  have hended := ThreadPc.ended_of_waiting hnew
  refine h.move hended.2 ?_ fun hrun => ⟨hnew, (h.done hrun t ht).2⟩
  unfold RunCounted
  rw [hpc, (ThreadPc.ended_of_waiting hold).1]
  exact and_congr_left fun _ => iff_of_true hended.1 (Eq.refl _)

/-- A thread that has finished the run is counted. -/
theorem RunEnd.countRun (h : RunEnd nThreads s) (ht : t < nThreads)
    (hpc : (s.threads t).pc = .countRun) (hepoch : (s.threads t).localEpoch = s.epoch) {pc : ThreadPc}
    (hnext : pc = if s.doneRunThreadCount = nThreads - 1 then .setRunDone else .awaitShutdown) :
    RunEnd nThreads ({ s with doneRunThreadCount := s.doneRunThreadCount + 1 }.goto t pc) := by
  have hnot : ¬RunCounted s t := by
    intro hc
    have hended := hc.1
    rw [hpc] at hended
    cases hended
  have hnoLast (i : ℕ) (hi : i < nThreads) : (s.threads i).pc ≠ .setRunDone := fun hlast =>
    hnot (h.last i hi hlast t ht).1
  have hself : ({ s with doneRunThreadCount := s.doneRunThreadCount + 1 }.goto t pc).threads t =
      ⟨pc, (s.threads t).localEpoch⟩ := by
    rw [goto_eq, move_self]
  have hother (i : ℕ) (hit : i ≠ t) :
      ({ s with doneRunThreadCount := s.doneRunThreadCount + 1 }.goto t pc).threads i =
        s.threads i := by
    rw [goto_eq, move_other _ hit]
  have hended : pc.ended = true := by
    rw [hnext]
    split <;> exact Eq.refl _
  have hone : RunCounted ({ s with doneRunThreadCount := s.doneRunThreadCount + 1 }.goto t pc) t := by
    unfold RunCounted
    rw [hself]
    exact ⟨hended, hepoch⟩
  have htotal := countBelow_succ ht hnot hone fun i _ hit => by
    unfold RunCounted
    rw [hother i hit]
    exact Iff.rfl
  refine ⟨(congrArg (· + 1) h.count).trans htotal.symm, ?_, ?_⟩
  · intro i hi hlast j hj
    by_cases hit : i = t
    · rw [hit, hself] at hlast
      dsimp only at hlast
      rw [hnext] at hlast
      split at hlast
      · rename_i hlastCount
        have hcount := h.count
        refine ⟨countBelow_eq_iff.mp (htotal.trans (by omega)) j hj, fun hji => ?_⟩
        rw [hother j fun hjt => hji (hjt.trans hit.symm)]
        exact hnoLast j hj
      · cases hlast
    · rw [hother i hit] at hlast
      exact absurd hlast (hnoLast i hi)
  · intro hrun
    have hwaiting := (h.done hrun t ht).1
    rw [hpc] at hwaiting
    cases hwaiting

/-- The last thread ends the run. -/
theorem RunEnd.setRunDone (h : RunEnd nThreads s) (ht : t < nThreads)
    (hpc : (s.threads t).pc = .setRunDone) :
    RunEnd nThreads ({ s with isRunDone := true }.goto t .awaitShutdown) := by
  have hall := h.last t ht hpc
  have hself : ({ s with isRunDone := true }.goto t .awaitShutdown).threads t =
      ⟨.awaitShutdown, (s.threads t).localEpoch⟩ := by
    rw [goto_eq, move_self]
  have hother (i : ℕ) (hit : i ≠ t) :
      ({ s with isRunDone := true }.goto t .awaitShutdown).threads i = s.threads i := by
    rw [goto_eq, move_other _ hit]
  have hrest : Rest nThreads ({ s with isRunDone := true }.goto t .awaitShutdown) := by
    intro i hi
    by_cases hit : i = t
    · rw [hit, hself]
      exact ⟨Eq.refl _, (hall t ht).1.2⟩
    · rw [hother i hit]
      have hcounted := (hall i hi).1
      exact ⟨ThreadPc.waiting_of_ended hcounted.1 ((hall i hi).2 hit), hcounted.2⟩
  have hsame (i : ℕ) (hi : i < nThreads) :
      RunCounted s i ↔ RunCounted ({ s with isRunDone := true }.goto t .awaitShutdown) i := by
    have hwaiting := hrest i hi
    exact iff_of_true (hall i hi).1 ⟨(ThreadPc.ended_of_waiting hwaiting.1).1, hwaiting.2⟩
  refine ⟨h.count.trans (countBelow_congr hsame), ?_, fun _ => hrest⟩
  intro i hi hlast
  have hwaiting := (hrest i hi).1
  rw [hlast] at hwaiting
  cases hwaiting

/-- Operations of threads keep the end of a run. -/
theorem RunEnd.threadStep (h : RunEnd nThreads s) (hb : Barrier s nThreads nSteps finished)
    (ht : t < nThreads) (halive : s.isAlive = true) (hshutdown : s.isShutdown = false) :
    RunEnd nThreads (s.threadStep nThreads nSteps t).1 := by
  have hplace := hb.place t ht
  unfold NnExecutor.threadStep
  unfold Place at hplace
  cases hpc : (s.threads t).pc with
  | awaitShutdown =>
    dsimp only
    rw [if_neg (by rw [hshutdown]; exact Bool.false_ne_true)]
    exact h.wait ht hpc (Eq.refl _) (Eq.refl _)
  | awaitEpoch =>
    dsimp only
    split
    · rename_i hepoch
      refine h.move ThreadPc.noConfusion (iff_of_false ?_ ?_) fun hrun => ?_
      · intro hended
        cases hended.1
      · intro hcounted
        exact hepoch hcounted.2.symm
      · exact absurd (h.done hrun t ht).2.symm hepoch
    · exact h.wait ht hpc (Eq.refl _) (Eq.refl _)
  | checkShutdown =>
    dsimp only
    split <;> exact h.inside ht hpc (Eq.refl _) (Eq.refl _)
  | takeEpoch => exact h.inside ht hpc (Eq.refl _) (Eq.refl _)
  | checkAlive =>
    dsimp only
    split <;> exact h.inside ht hpc (Eq.refl _) (Eq.refl _)
  | loadStep =>
    dsimp only
    split <;> exact h.inside ht hpc (Eq.refl _) (Eq.refl _)
  | enterStep step => exact h.inside ht hpc (Eq.refl _) (Eq.refl _)
  | executeStep step => exact h.inside ht hpc (Eq.refl _) (Eq.refl _)
  | countThread step =>
    dsimp only
    split
    · exact (h.inside (x := ⟨.resetCount step, (s.threads t).localEpoch⟩) ht hpc (Eq.refl _)
        (Eq.refl _)).congr (Eq.refl _) (Eq.refl _) (Eq.refl _) (Eq.refl _)
    · exact (h.inside (x := ⟨.spinStep step, (s.threads t).localEpoch⟩) ht hpc (Eq.refl _)
        (Eq.refl _)).congr (Eq.refl _) (Eq.refl _) (Eq.refl _) (Eq.refl _)
  | resetCount step =>
    exact (h.inside (x := ⟨.advanceStep step, (s.threads t).localEpoch⟩) ht hpc (Eq.refl _)
      (Eq.refl _)).congr (Eq.refl _) (Eq.refl _) (Eq.refl _) (Eq.refl _)
  | advanceStep step =>
    exact (h.inside (x := ⟨.checkAlive, (s.threads t).localEpoch⟩) ht hpc (Eq.refl _)
      (Eq.refl _)).congr (Eq.refl _) (Eq.refl _) (Eq.refl _) (Eq.refl _)
  | spinStep step =>
    dsimp only
    split <;> exact h.inside ht hpc (Eq.refl _) (Eq.refl _)
  | spinAlive step =>
    dsimp only
    split <;> exact h.inside ht hpc (Eq.refl _) (Eq.refl _)
  | spinShutdown step =>
    dsimp only
    split <;> exact h.inside ht hpc (Eq.refl _) (Eq.refl _)
  | spinEpoch step =>
    dsimp only
    split <;> exact h.inside ht hpc (Eq.refl _) (Eq.refl _)
  | countRun =>
    rw [hpc] at hplace
    have hepoch := (hplace halive).1.2
    dsimp only
    split
    · rename_i hlast
      exact h.countRun ht hpc hepoch (if_pos hlast).symm
    · rename_i hlast
      exact h.countRun ht hpc hepoch (if_neg hlast).symm
  | setRunDone => exact h.setRunDone ht hpc
  | exited => exact h

/-- Operations of threads leave the run and the caller alone. -/
theorem threadStep_frame (s : NnExecutor) (nThreads nSteps t : ℕ) :
    (s.threadStep nThreads nSteps t).1.epoch = s.epoch ∧
      (s.threadStep nThreads nSteps t).1.isAlive = s.isAlive ∧
      (s.threadStep nThreads nSteps t).1.isShutdown = s.isShutdown ∧
      (s.threadStep nThreads nSteps t).1.caller = s.caller ∧
      (s.isRunDone = true → (s.threadStep nThreads nSteps t).1.isRunDone = true) := by
  have hgoto (s' : NnExecutor) (pc : ThreadPc) (h : s'.epoch = s.epoch ∧ s'.isAlive = s.isAlive ∧
      s'.isShutdown = s.isShutdown ∧ s'.caller = s.caller ∧ (s.isRunDone = true → s'.isRunDone = true)) :
      (s'.goto t pc).epoch = s.epoch ∧ (s'.goto t pc).isAlive = s.isAlive ∧
        (s'.goto t pc).isShutdown = s.isShutdown ∧ (s'.goto t pc).caller = s.caller ∧
        (s.isRunDone = true → (s'.goto t pc).isRunDone = true) := h
  unfold NnExecutor.threadStep
  cases (s.threads t).pc with
  | takeEpoch | exited => exact ⟨Eq.refl _, Eq.refl _, Eq.refl _, Eq.refl _, id⟩
  | setRunDone => exact hgoto _ _ ⟨Eq.refl _, Eq.refl _, Eq.refl _, Eq.refl _, fun _ => Eq.refl _⟩
  | enterStep step | executeStep step | resetCount step | advanceStep step =>
    exact hgoto _ _ ⟨Eq.refl _, Eq.refl _, Eq.refl _, Eq.refl _, id⟩
  | _ =>
    dsimp only
    split <;> exact hgoto _ _ ⟨Eq.refl _, Eq.refl _, Eq.refl _, Eq.refl _, id⟩

/-- A thread that waits for the next forward only looks. -/
theorem Rest.threadStep (h : Rest nThreads s) (ht : t < nThreads) (hshutdown : s.isShutdown = false)
    (nSteps : ℕ) :
    ∃ pc, pc.waiting = true ∧ s.threadStep nThreads nSteps t = (s.goto t pc, []) := by
  have ⟨hwaiting, hepoch⟩ := h t ht
  unfold NnExecutor.threadStep
  cases hpc : (s.threads t).pc with
  | awaitShutdown =>
    dsimp only
    rw [if_neg (by rw [hshutdown]; exact Bool.false_ne_true)]
    exact ⟨.awaitEpoch, Eq.refl _, Eq.refl _⟩
  | awaitEpoch =>
    dsimp only
    rw [if_neg fun hne => hne hepoch.symm]
    exact ⟨.awaitShutdown, Eq.refl _, Eq.refl _⟩
  | _ =>
    rw [hpc] at hwaiting
    cases hwaiting

theorem Rest.goto (h : Rest nThreads s) (ht : t < nThreads) {pc : ThreadPc} (hpc : pc.waiting = true) :
    Rest nThreads (s.goto t pc) := by
  intro i hi
  rw [goto_eq]
  by_cases hit : i = t
  · rw [hit, move_self]
    exact ⟨hpc, (h t ht).2⟩
  · rw [move_other _ hit]
    exact h i hi

end Runs

section Invariant

variable {s : NnExecutor} {nThreads nSteps t : ℕ} {finished : ℕ → ℕ} {trace : List Event}

/-- Events since the last call of a forward. -/
def lastForward (trace : List Event) : List Event :=
  trace.foldl (fun events event => if event = .call then [] else events ++ [event]) []

/-- Events of a thread since the last call of a forward. -/
def threadEvents (trace : List Event) (t : ℕ) : List Event :=
  (lastForward trace).filter (Event.of t)

theorem threadEvents_call (t : ℕ) : threadEvents (trace ++ [.call]) t = [] := by
  unfold threadEvents lastForward
  rw [List.foldl_append]
  exact Eq.refl _

theorem threadEvents_event {event : Event} (h : event ≠ .call) (t : ℕ) :
    threadEvents (trace ++ [event]) t = threadEvents trace t ++ [event].filter (Event.of t) := by
  unfold threadEvents lastForward
  rw [List.foldl_append, List.foldl_cons, List.foldl_nil, if_neg h, List.filter_append]

/-- What a forward has prepared before it starts the threads. -/
def Prepared (s : NnExecutor) : Prop :=
  match s.caller with
  | .storeStep => s.isAlive = true
  | .storeThreadCount => s.isAlive = true ∧ s.currentStepIndex = 0
  | .storeRunCount => s.isAlive = true ∧ s.currentStepIndex = 0 ∧ s.doneThreadCount = 0
  | .storeRunDone => s.isAlive = true ∧ s.currentStepIndex = 0 ∧ s.doneThreadCount = 0 ∧
    s.doneRunThreadCount = 0
  | .bumpEpoch => s.isAlive = true ∧ s.currentStepIndex = 0 ∧ s.doneThreadCount = 0 ∧
    s.doneRunThreadCount = 0 ∧ s.isRunDone = false
  | _ => True

/-- What holds wherever the caller is. -/
def Inv (nThreads nSteps : ℕ) (s : NnExecutor) (finished : ℕ → ℕ) : Prop :=
  match s.caller with
  | .idle => Barrier { s with isShutdown := true } nThreads nSteps finished ∧ Rest nThreads s ∧
    s.isAlive = true ∧ s.isShutdown = false
  | .storeAlive | .storeStep | .storeThreadCount | .storeRunCount | .storeRunDone | .bumpEpoch =>
    Rest nThreads s ∧ s.isShutdown = false ∧ (∀ t < nThreads, finished t = 0) ∧ Prepared s
  | .testShutdown | .testRunDone | .testAlive | .timeoutAlive =>
    Barrier s nThreads nSteps finished ∧ RunEnd nThreads s ∧ s.isAlive = true ∧ s.isShutdown = false
  | .checkResult => Barrier s nThreads nSteps finished ∧ s.isShutdown = false ∧
    (s.isAlive = true → s.isRunDone = true ∧ RunEnd nThreads s)
  | .timeoutRunDone | .timeoutEpoch => Barrier s nThreads nSteps finished ∧ s.isAlive = false ∧
    s.isShutdown = false
  | .failed => Barrier s nThreads nSteps finished ∧ s.isAlive = false
  | .destroyEpoch | .joinThreads => Barrier s nThreads nSteps finished ∧ s.isShutdown = true

/-- Threads have done what has been seen of them. -/
def Recorded (nThreads : ℕ) (s : NnExecutor) (finished : ℕ → ℕ) (trace : List Event) : Prop :=
  ∀ t < nThreads, threadEvents trace t = record s finished t

/-- Threads that wait have begun nothing. -/
theorem Rest.record (h : Rest nThreads s) (ht : t < nThreads) :
    record s finished t = stepsOf t (finished t) := by
  have hwaiting := (h t ht).1
  unfold ExecutorBarrier.record
  cases hpc : (s.threads t).pc with
  | awaitShutdown | awaitEpoch => exact List.append_nil _
  | _ =>
    rw [hpc] at hwaiting
    cases hwaiting

/-- What the next event may be. -/
def Allowed (nThreads nSteps : ℕ) (before : List Event) : Event → Prop
  | .start t step => t < nThreads ∧ step < nSteps ∧
    ∀ i < nThreads, stepsOf i step <+: threadEvents before i
  | .returned => ∀ t < nThreads, threadEvents before t = stepsOf t nSteps
  | _ => True

/-- The invariant after an operation, and its events. -/
def Good (nThreads nSteps : ℕ) (trace : List Event) (r : NnExecutor × List Event) : Prop :=
  (∃ finished, Inv nThreads nSteps r.1 finished ∧ Recorded nThreads r.1 finished (trace ++ r.2)) ∧
    (r.2 = [] ∨ ∃ event, r.2 = [event] ∧ Allowed nThreads nSteps trace event)

/-- Threads that have done what has been seen go on doing so. -/
theorem Recorded.step (h : Recorded nThreads s finished trace) {s' : NnExecutor}
    {finished' : ℕ → ℕ} {events : List Event} (hrecords : Records nThreads s finished s' finished' events)
    (hevents : events = [] ∨ ∃ event, events = [event] ∧ event ≠ .call) :
    Recorded nThreads s' finished' (trace ++ events) := by
  intro i hi
  rw [hrecords i hi, ← h i hi]
  cases hevents with
  | inl hnil => rw [hnil, List.append_nil, List.filter_nil, List.append_nil]
  | inr hone =>
    obtain ⟨event, hevent, hne⟩ := hone
    rw [hevent]
    exact threadEvents_event hne i

/-- The events of an operation of a thread. -/
theorem threadStep_events (hb : Barrier s nThreads nSteps finished) (ht : t < nThreads)
    (hrecorded : Recorded nThreads s finished trace) :
    (s.threadStep nThreads nSteps t).2 = [] ∨ ∃ event, (s.threadStep nThreads nSteps t).2 = [event] ∧
      event ≠ .call ∧ Allowed nThreads nSteps trace event := by
  have hplace := hb.place t ht
  unfold NnExecutor.threadStep
  unfold Place at hplace
  cases hpc : (s.threads t).pc with
  | enterStep step =>
    rw [hpc] at hplace
    obtain ⟨_, hstep, hfinished, hlt⟩ := hplace
    refine Or.inr ⟨_, Eq.refl _, ?_, ht, hlt, fun i hi => ?_⟩
    · intro heq
      cases heq
    · rw [hrecorded i hi]
      have hrange := hb.range i hi
      exact (stepsOf_mono i (by omega)).trans (List.prefix_append _ _)
  | executeStep step =>
    refine Or.inr ⟨_, Eq.refl _, ?_, trivial⟩
    intro heq
    cases heq
  | takeEpoch | setRunDone | resetCount step | advanceStep step | exited => exact Or.inl (Eq.refl _)
  | _ =>
    dsimp only
    split <;> exact Or.inl (Eq.refl _)

/-- Operations of threads keep the invariant. -/
theorem good_thread (hinv : Inv nThreads nSteps s finished)
    (hrecorded : Recorded nThreads s finished trace) (ht : t < nThreads) :
    Good nThreads nSteps trace (s.threadStep nThreads nSteps t) := by
  obtain ⟨hepoch, halive', hshutdown', hcaller, hrunDone⟩ := threadStep_frame s nThreads nSteps t
  have hrest (hr : Rest nThreads s) (hshutdown : s.isShutdown = false)
      (h : ∀ pc, Rest nThreads (s.goto t pc) → Inv nThreads nSteps (s.goto t pc) finished) :
      Good nThreads nSteps trace (s.threadStep nThreads nSteps t) := by
    obtain ⟨pc, hpc, hstep⟩ := hr.threadStep ht hshutdown nSteps
    have hr' := hr.goto ht hpc
    rw [hstep]
    refine ⟨⟨finished, h pc hr', fun i hi => ?_⟩, Or.inl (Eq.refl _)⟩
    rw [List.append_nil, hrecorded i hi, hr.record hi, hr'.record hi]
  have hrun (hb : Barrier s nThreads nSteps finished)
      (h : ∀ finished', Barrier (s.threadStep nThreads nSteps t).1 nThreads nSteps finished' →
        Inv nThreads nSteps (s.threadStep nThreads nSteps t).1 finished') :
      Good nThreads nSteps trace (s.threadStep nThreads nSteps t) := by
    obtain ⟨finished', hb', hrecords⟩ := hb.threadStep ht
    have hevents := threadStep_events hb ht hrecorded
    refine ⟨⟨finished', h finished' hb', hrecorded.step hrecords ?_⟩, ?_⟩
    · exact hevents.imp id fun ⟨event, hevent, hne, _⟩ => ⟨event, hevent, hne⟩
    · exact hevents.imp id fun ⟨event, hevent, _, hallowed⟩ => ⟨event, hevent, hallowed⟩
  unfold Inv at hinv hrest hrun
  rw [hcaller, halive', hshutdown'] at hrun
  cases hpc : s.caller with
  | idle =>
    rw [hpc] at hinv
    obtain ⟨hb, hr, halive, hshutdown⟩ := hinv
    refine hrest hr hshutdown fun pc hr' => ?_
    have hsame : (s.goto t pc).caller = s.caller := Eq.refl _
    rw [hsame, hpc]
    refine ⟨?_, hr', halive, hshutdown⟩
    have hnew := (hr' t ht).1
    rw [goto_eq, move_self] at hnew
    have hold := ThreadPc.of_quiet (t := t) (ThreadPc.quiet_of_waiting (hr t ht).1)
    have hquiet := ThreadPc.of_quiet (t := t) (ThreadPc.quiet_of_waiting hnew)
    exact hb.move (x := ⟨pc, (s.threads t).localEpoch⟩) (Place.waiting hnew (Eq.refl _))
      (hquiet.1.trans hold.1.symm) (hquiet.2.1.trans hold.2.1.symm)
      (hquiet.2.2.1.trans hold.2.2.1.symm)
  | storeAlive | storeStep | storeThreadCount | storeRunCount | storeRunDone | bumpEpoch =>
    rw [hpc] at hinv
    obtain ⟨hr, hshutdown, hzero, hprepared⟩ := hinv
    refine hrest hr hshutdown fun pc hr' => ?_
    have hsame : (s.goto t pc).caller = s.caller := Eq.refl _
    rw [hsame, hpc]
    exact ⟨hr', hshutdown, hzero, hprepared⟩
  | testShutdown | testRunDone | testAlive | timeoutAlive =>
    rw [hpc] at hinv hrun
    obtain ⟨hb, hend, halive, hshutdown⟩ := hinv
    exact hrun hb fun finished' hb' => ⟨hb', hend.threadStep hb ht halive hshutdown, halive, hshutdown⟩
  | checkResult =>
    rw [hpc] at hinv hrun
    obtain ⟨hb, hshutdown, hdone⟩ := hinv
    refine hrun hb fun finished' hb' => ⟨hb', hshutdown, fun halive => ?_⟩
    exact ⟨hrunDone (hdone halive).1, (hdone halive).2.threadStep hb ht halive hshutdown⟩
  | timeoutRunDone | timeoutEpoch =>
    rw [hpc] at hinv hrun
    exact hrun hinv.1 fun finished' hb' => ⟨hb', hinv.2⟩
  | failed | destroyEpoch | joinThreads =>
    rw [hpc] at hinv hrun
    exact hrun hinv.1 fun finished' hb' => ⟨hb', hinv.2⟩

/-- An operation without events that leaves the threads alone. -/
theorem good_of_threads (hrecorded : Recorded nThreads s finished trace) {s' : NnExecutor}
    (hthreads : s'.threads = s.threads) (hinv : Inv nThreads nSteps s' finished) :
    Good nThreads nSteps trace (s', []) := by
  refine ⟨⟨finished, hinv, fun i hi => ?_⟩, Or.inl (Eq.refl _)⟩
  rw [List.append_nil, hrecorded i hi]
  unfold record
  rw [hthreads]

/-- Where a thread can be does not depend on the epoch after a stall or in the end. -/
theorem Place.stopped {x : NnExecutorThread} {count : ℕ} {s' : NnExecutor}
    (h : Place s nSteps count x) (hstep : s'.currentStepIndex = s.currentStepIndex)
    (hstopped : s'.isAlive = true → s.isAlive = true ∧ s.isShutdown = true ∧ s'.isShutdown = true) :
    Place s' nSteps count x := by
  have hinside (halive : s'.isAlive = true) : ¬Inside s x := by
    intro hin
    have hnot := hin.1
    rw [(hstopped halive).2.1] at hnot
    cases hnot
  obtain ⟨pc, localEpoch⟩ := x
  unfold Place at h ⊢
  cases pc with
  | awaitShutdown | awaitEpoch | checkShutdown =>
    intro halive hshutdown
    rw [(hstopped halive).2.2] at hshutdown
    cases hshutdown
  | takeEpoch =>
    intro halive
    have hnot := (h (hstopped halive).1).1
    rw [(hstopped halive).2.1] at hnot
    cases hnot
  | checkAlive => exact fun halive => absurd (h (hstopped halive).1).1 (hinside halive)
  | loadStep => exact ⟨fun halive => absurd (h.1 (hstopped halive).1) (hinside halive),
      h.2.trans hstep.symm⟩
  | enterStep step | executeStep step =>
    exact ⟨fun halive => absurd (h.1 (hstopped halive).1) (hinside halive), h.2.1.trans hstep.symm,
      h.2.2⟩
  | countThread step | resetCount step | advanceStep step =>
    exact ⟨fun halive => absurd (h.1 (hstopped halive).1) (hinside halive), h.2.1.trans hstep.symm,
      h.2.2⟩
  | spinStep step | spinAlive step | spinShutdown step | spinEpoch step =>
    refine ⟨fun halive => absurd (h.1 (hstopped halive).1) (hinside halive), h.2.1, ?_⟩
    rw [hstep]
    exact h.2.2
  | countRun | setRunDone => exact fun halive => absurd (h (hstopped halive).1).1 (hinside halive)
  | exited => trivial

/-- The barrier stays when threads can be where they are. -/
theorem Barrier.of_place (h : Barrier s nThreads nSteps finished) {s' : NnExecutor}
    (hstep : s'.currentStepIndex = s.currentStepIndex)
    (hcount : s'.doneThreadCount = s.doneThreadCount) (hthreads : s'.threads = s.threads)
    (hplace : ∀ t < nThreads, Place s nSteps (finished t) (s.threads t) →
      Place s' nSteps (finished t) (s.threads t)) : Barrier s' nThreads nSteps finished := by
  obtain ⟨epoch, index, count, runCount, alive, shutdown, runDone, threads, caller⟩ := s'
  dsimp only at hstep hcount hthreads
  subst hstep hcount hthreads
  exact ⟨h.range, fun i hi => hplace i hi (h.place i hi), h.last, h.count, h.reset⟩

/-- Operations of the caller keep the invariant. -/
theorem good_caller (hinv : Inv nThreads nSteps s finished)
    (hrecorded : Recorded nThreads s finished trace) :
    Good nThreads nSteps trace s.callerStep := by
  unfold Inv at hinv
  unfold NnExecutor.callerStep
  cases hpc : s.caller with
  | idle =>
    rw [hpc] at hinv
    obtain ⟨_, hr, _, hshutdown⟩ := hinv
    have hr' : Rest nThreads { s with caller := .storeAlive } := hr
    refine ⟨⟨fun _ => 0, ⟨hr', hshutdown, fun _ _ => Eq.refl _, trivial⟩, fun i hi => ?_⟩,
      Or.inr ⟨.call, Eq.refl _, trivial⟩⟩
    rw [threadEvents_call, hr'.record hi]
    exact Eq.refl _
  | storeAlive =>
    rw [hpc] at hinv
    obtain ⟨hr, hshutdown, hzero, _⟩ := hinv
    exact good_of_threads hrecorded (Eq.refl _) ⟨hr, hshutdown, hzero, Eq.refl _⟩
  | storeStep =>
    rw [hpc] at hinv
    obtain ⟨hr, hshutdown, hzero, hprepared⟩ := hinv
    unfold Prepared at hprepared
    rw [hpc] at hprepared
    exact good_of_threads hrecorded (Eq.refl _) ⟨hr, hshutdown, hzero, hprepared, Eq.refl _⟩
  | storeThreadCount =>
    rw [hpc] at hinv
    obtain ⟨hr, hshutdown, hzero, hprepared⟩ := hinv
    unfold Prepared at hprepared
    rw [hpc] at hprepared
    exact good_of_threads hrecorded (Eq.refl _)
      ⟨hr, hshutdown, hzero, hprepared.1, hprepared.2, Eq.refl _⟩
  | storeRunCount =>
    rw [hpc] at hinv
    obtain ⟨hr, hshutdown, hzero, hprepared⟩ := hinv
    unfold Prepared at hprepared
    rw [hpc] at hprepared
    exact good_of_threads hrecorded (Eq.refl _)
      ⟨hr, hshutdown, hzero, hprepared.1, hprepared.2.1, hprepared.2.2, Eq.refl _⟩
  | storeRunDone =>
    rw [hpc] at hinv
    obtain ⟨hr, hshutdown, hzero, hprepared⟩ := hinv
    unfold Prepared at hprepared
    rw [hpc] at hprepared
    exact good_of_threads hrecorded (Eq.refl _) ⟨hr, hshutdown, hzero, hprepared.1, hprepared.2.1,
      hprepared.2.2.1, hprepared.2.2.2, Eq.refl _⟩
  | bumpEpoch =>
    rw [hpc] at hinv
    obtain ⟨hr, hshutdown, hzero, hprepared⟩ := hinv
    unfold Prepared at hprepared
    rw [hpc] at hprepared
    obtain ⟨halive, hstep, hcount, hrunCount, hrunDone⟩ := hprepared
    have hends (pc : ThreadPc) (hwaiting : pc.waiting = true) :
        pc.last = false ∧ pc.advancing = false := by
      cases pc with
      | awaitShutdown | awaitEpoch => exact ⟨Eq.refl _, Eq.refl _⟩
      | _ => cases hwaiting
    have hnext (i : ℕ) (hi : i < nThreads) : (s.threads i).localEpoch ≠ s.epoch + 1 := by
      rw [(hr i hi).2]
      intro heq
      have hsucc : s.epoch + 0 = s.epoch + 1 := (UInt32.add_zero _).trans heq
      have hone : (0 : UInt32) = 1 := (UInt32.add_right_inj _).mp hsucc
      cases hone
    refine good_of_threads hrecorded (Eq.refl _) ⟨⟨?_, ?_, ?_, ?_, ?_⟩, ⟨?_, ?_, ?_⟩, halive, hshutdown⟩
    · intro i hi
      rw [hzero i hi]
      dsimp only
      omega
    · intro i hi
      have ⟨hwaiting, hepoch⟩ := hr i hi
      unfold Place
      cases hx : (s.threads i).pc with
      | awaitShutdown | awaitEpoch =>
        exact fun _ _ => Or.inl ⟨by rw [hepoch], hzero i hi⟩
      | _ =>
        rw [hx] at hwaiting
        cases hwaiting
    · intro i hi hlast
      dsimp only at hlast
      rw [(hends _ (hr i hi).1).1] at hlast
      cases hlast
    · intro _
      refine hcount.trans (countBelow_eq_zero fun i hi hcounted => ?_).symm
      have hmore : finished i = s.currentStepIndex + 1 := hcounted.1
      rw [hzero i hi] at hmore
      omega
    · intro i hi hadvancing
      exact hcount
    · exact hrunCount.trans (countBelow_eq_zero fun i hi hcounted => hnext i hi hcounted.2).symm
    · intro i hi hlast
      exact absurd hlast (ThreadPc.ended_of_waiting (hr i hi).1).2
    · intro hrun
      dsimp only at hrun
      rw [hrunDone] at hrun
      cases hrun
  | testShutdown =>
    rw [hpc] at hinv
    obtain ⟨hb, hend, halive, hshutdown⟩ := hinv
    dsimp only
    rw [hshutdown]
    exact good_of_threads hrecorded (Eq.refl _)
      ⟨hb.congr (Eq.refl _) (Eq.refl _) (Eq.refl _) (Eq.refl _) hshutdown.symm (Eq.refl _),
        hend.congr (Eq.refl _) (Eq.refl _) (Eq.refl _) (Eq.refl _), halive, Eq.refl _⟩
  | testRunDone =>
    rw [hpc] at hinv
    obtain ⟨hb, hend, halive, hshutdown⟩ := hinv
    dsimp only
    cases hrun : s.isRunDone with
    | true =>
      exact good_of_threads hrecorded (Eq.refl _)
        ⟨hb.congr (Eq.refl _) (Eq.refl _) (Eq.refl _) (Eq.refl _) (Eq.refl _) (Eq.refl _),
          hshutdown, fun _ => ⟨Eq.refl _, hend.congr (Eq.refl _) (Eq.refl _) hrun.symm (Eq.refl _)⟩⟩
    | false =>
      exact good_of_threads hrecorded (Eq.refl _)
        ⟨hb.congr (Eq.refl _) (Eq.refl _) (Eq.refl _) (Eq.refl _) (Eq.refl _) (Eq.refl _),
          hend.congr (Eq.refl _) (Eq.refl _) hrun.symm (Eq.refl _), halive, hshutdown⟩
  | testAlive =>
    rw [hpc] at hinv
    obtain ⟨hb, hend, halive, hshutdown⟩ := hinv
    dsimp only
    rw [halive]
    exact good_of_threads hrecorded (Eq.refl _)
      ⟨hb.congr (Eq.refl _) (Eq.refl _) (Eq.refl _) halive.symm (Eq.refl _) (Eq.refl _),
        hend.congr (Eq.refl _) (Eq.refl _) (Eq.refl _) (Eq.refl _), Eq.refl _, hshutdown⟩
  | timeoutAlive =>
    rw [hpc] at hinv
    obtain ⟨hb, _, _, hshutdown⟩ := hinv
    refine good_of_threads hrecorded (Eq.refl _) ⟨?_, Eq.refl _, hshutdown⟩
    refine hb.of_place (Eq.refl _) (Eq.refl _) (Eq.refl _) fun i _ hplace => ?_
    exact hplace.stopped (Eq.refl _) fun halive => by cases halive
  | timeoutRunDone =>
    rw [hpc] at hinv
    obtain ⟨hb, halive, hshutdown⟩ := hinv
    exact good_of_threads hrecorded (Eq.refl _)
      ⟨hb.congr (Eq.refl _) (Eq.refl _) (Eq.refl _) (Eq.refl _) (Eq.refl _) (Eq.refl _), halive,
        hshutdown⟩
  | timeoutEpoch =>
    rw [hpc] at hinv
    obtain ⟨hb, halive, hshutdown⟩ := hinv
    have hnot (h : s.isAlive = true) : False := by
      rw [halive] at h
      cases h
    refine good_of_threads hrecorded (Eq.refl _) ⟨?_, hshutdown, fun h => (hnot h).elim⟩
    refine hb.of_place (Eq.refl _) (Eq.refl _) (Eq.refl _) fun i _ hplace => ?_
    exact hplace.stopped (Eq.refl _) fun h => (hnot h).elim
  | checkResult =>
    rw [hpc] at hinv
    obtain ⟨hb, hshutdown, hdone⟩ := hinv
    dsimp only
    cases halive : s.isAlive with
    | true =>
      have ⟨hrun, hend⟩ := hdone halive
      have hr := hend.done hrun
      have hall (i : ℕ) (hi : i < nThreads) : finished i = nSteps := by
        have hplace := hb.place i hi
        have ⟨hwaiting, hepoch⟩ := hr i hi
        have hnot : (s.threads i).localEpoch + 1 ≠ s.epoch := by
          rw [hepoch]
          intro heq
          have hone : (1 : UInt32) = 0 := (UInt32.add_right_inj _).mp (heq.trans (UInt32.add_zero _).symm)
          cases hone
        unfold Place at hplace
        cases hx : (s.threads i).pc with
        | awaitShutdown | awaitEpoch =>
          rw [hx] at hplace
          cases hplace halive hshutdown with
          | inl hnew => exact absurd hnew.1 hnot
          | inr hold => exact hold.2
        | _ =>
          rw [hx] at hwaiting
          cases hwaiting
      rw [if_pos (Eq.refl _), ← halive]
      refine ⟨⟨finished, ⟨hb.of_place (Eq.refl _) (Eq.refl _) (Eq.refl _) fun i hi _ =>
        Place.waiting (hr i hi).1 (Eq.refl _), hr, halive, hshutdown⟩, fun i hi => ?_⟩,
        Or.inr ⟨.returned, Eq.refl _, ?_⟩⟩
      · rw [threadEvents_event Event.noConfusion, hrecorded i hi]
        exact List.append_nil _
      · intro i hi
        rw [hrecorded i hi, hr.record hi, hall i hi]
    | false =>
      rw [if_neg Bool.false_ne_true]
      refine ⟨⟨finished, ⟨hb.congr (Eq.refl _) (Eq.refl _) (Eq.refl _) halive.symm (Eq.refl _)
        (Eq.refl _), Eq.refl _⟩, fun i hi => ?_⟩, Or.inr ⟨.thrown, Eq.refl _, trivial⟩⟩
      rw [threadEvents_event Event.noConfusion, hrecorded i hi]
      exact List.append_nil _
  | failed =>
    exact good_of_threads hrecorded (Eq.refl _) (by unfold Inv; rw [hpc] at hinv ⊢; exact hinv)
  | destroyEpoch =>
    rw [hpc] at hinv
    obtain ⟨hb, hshutdown⟩ := hinv
    refine good_of_threads hrecorded (Eq.refl _) ⟨?_, hshutdown⟩
    refine hb.of_place (Eq.refl _) (Eq.refl _) (Eq.refl _) fun i _ hplace => ?_
    exact hplace.stopped (Eq.refl _) fun halive => ⟨halive, hshutdown, hshutdown⟩
  | joinThreads =>
    exact good_of_threads hrecorded (Eq.refl _) (by unfold Inv; rw [hpc] at hinv ⊢; exact hinv)

/-- A stall keeps the invariant. -/
theorem good_timeout (hinv : Inv nThreads nSteps s finished)
    (hrecorded : Recorded nThreads s finished trace) :
    Good nThreads nSteps trace s.timeoutStep := by
  unfold NnExecutor.timeoutStep
  split
  · rename_i hstall
    unfold Inv at hinv
    rw [hstall.1] at hinv
    obtain ⟨hb, hend, halive, hshutdown⟩ := hinv
    exact good_of_threads hrecorded (Eq.refl _)
      ⟨hb.congr (Eq.refl _) (Eq.refl _) (Eq.refl _) (Eq.refl _) (Eq.refl _) (Eq.refl _),
        hend.congr (Eq.refl _) (Eq.refl _) (Eq.refl _) (Eq.refl _), halive, hshutdown⟩
  · exact good_of_threads hrecorded (Eq.refl _) hinv

/-- The destructor keeps the invariant. -/
theorem good_destroy (hinv : Inv nThreads nSteps s finished)
    (hrecorded : Recorded nThreads s finished trace) :
    Good nThreads nSteps trace s.destroyStep := by
  unfold NnExecutor.destroyStep
  split
  · rename_i hcaller
    refine good_of_threads hrecorded (Eq.refl _) ⟨?_, Eq.refl _⟩
    unfold Inv at hinv
    cases hcaller with
    | inl hidle =>
      rw [hidle] at hinv
      exact hinv.1.congr (Eq.refl _) (Eq.refl _) (Eq.refl _) (Eq.refl _) (Eq.refl _) (Eq.refl _)
    | inr hfailed =>
      rw [hfailed] at hinv
      refine hinv.1.of_place (Eq.refl _) (Eq.refl _) (Eq.refl _) fun i _ hplace => ?_
      refine hplace.stopped (Eq.refl _) fun halive => ?_
      have hdead : s.isAlive = true := halive
      rw [hinv.2] at hdead
      cases hdead
  · exact good_of_threads hrecorded (Eq.refl _) hinv

/-- Every operation keeps the invariant. -/
theorem good_step (hinv : Inv nThreads nSteps s finished)
    (hrecorded : Recorded nThreads s finished trace) (actor : Actor) :
    Good nThreads nSteps trace (step nThreads nSteps s actor) := by
  cases actor with
  | thread t =>
    unfold step
    dsimp only
    split
    · exact good_thread hinv hrecorded ‹_›
    · exact good_of_threads hrecorded (Eq.refl _) hinv
  | caller => exact good_caller hinv hrecorded
  | timeout => exact good_timeout hinv hrecorded
  | destroy => exact good_destroy hinv hrecorded

theorem inv_init (nThreads nSteps : ℕ) : Inv nThreads nSteps .init fun _ => 0 := by
  refine ⟨⟨?_, ?_, ?_, ?_, ?_⟩, ?_, Eq.refl _, Eq.refl _⟩
  · exact fun _ _ => ⟨Nat.le_refl 0, Nat.zero_le 1, Nat.zero_le nSteps⟩
  · intro i _
    exact Place.waiting (Eq.refl _) (Eq.refl _)
  · intro i _ hlast
    cases hlast
  · intro _
    refine (countBelow_eq_zero fun i _ hcounted => ?_).symm
    cases hcounted.1
  · intro i _ hadvancing
    cases hadvancing
  · exact fun _ _ => ⟨Eq.refl _, Eq.refl _⟩

end Invariant

section Traces

/-- The barrier as it is seen, at every moment of a run. -/
structure BarrierKept (nThreads nSteps : ℕ) (trace : List Event) : Prop where
  /-- In a forward every thread begins and completes the steps in order, each once. -/
  in_order : ∀ before, before <+: trace → ∀ t < nThreads, ∃ count ≤ nSteps,
    threadEvents before t = stepsOf t count ∨
      count < nSteps ∧ threadEvents before t = stepsOf t count ++ [.start t count]
  /-- No thread begins with a step before all threads have completed the earlier ones. -/
  barrier : ∀ before t step, before ++ [.start t step] <+: trace → t < nThreads ∧ step < nSteps ∧
    ∀ i < nThreads, stepsOf i step <+: threadEvents before i
  /-- A forward returns when all threads have completed all steps. -/
  returns : ∀ before, before ++ [.returned] <+: trace →
    ∀ t < nThreads, threadEvents before t = stepsOf t nSteps

variable {nThreads nSteps : ℕ}

/-- A trace that goes on with an event that is allowed. -/
theorem BarrierKept.snoc {trace : List Event} {event : Event} (h : BarrierKept nThreads nSteps trace)
    (hallowed : Allowed nThreads nSteps trace event)
    (hnew : ∀ t < nThreads, ∃ count ≤ nSteps, threadEvents (trace ++ [event]) t = stepsOf t count ∨
      count < nSteps ∧ threadEvents (trace ++ [event]) t = stepsOf t count ++ [.start t count]) :
    BarrierKept nThreads nSteps (trace ++ [event]) := by
  have hlast {before : List Event} {other : Event} (heq : before ++ [other] = trace ++ [event]) :
      before = trace ∧ other = event := by
    have hboth := List.append_inj' heq (Eq.refl _)
    exact ⟨hboth.1, List.singleton_inj.mp hboth.2⟩
  refine ⟨?_, ?_, ?_⟩
  · intro before hprefix
    cases List.prefix_concat_iff.mp hprefix with
    | inl heq => exact heq ▸ hnew
    | inr hold => exact h.in_order before hold
  · intro before t step hprefix
    cases List.prefix_concat_iff.mp hprefix with
    | inl heq =>
      have ⟨hbefore, hevent⟩ := hlast heq
      rw [hbefore]
      rw [← hevent] at hallowed
      exact hallowed
    | inr hold => exact h.barrier before t step hold
  · intro before hprefix
    cases List.prefix_concat_iff.mp hprefix with
    | inl heq =>
      have ⟨hbefore, hevent⟩ := hlast heq
      rw [hbefore]
      rw [← hevent] at hallowed
      exact hallowed
    | inr hold => exact h.returns before hold

/-- What has been recorded of a thread is in order. -/
theorem Inv.in_order {s : NnExecutor} {finished : ℕ → ℕ} (h : Inv nThreads nSteps s finished)
    {t : ℕ} (ht : t < nThreads) : ∃ count ≤ nSteps, record s finished t = stepsOf t count ∨
      count < nSteps ∧ record s finished t = stepsOf t count ++ [.start t count] := by
  have hbarrier {s' : NnExecutor} (hb : Barrier s' nThreads nSteps finished)
      (hthreads : s'.threads = s.threads) : ∃ count ≤ nSteps, record s finished t = stepsOf t count ∨
        count < nSteps ∧ record s finished t = stepsOf t count ++ [.start t count] := by
    refine ⟨finished t, (hb.range t ht).2.2, ?_⟩
    have hplace := hb.place t ht
    rw [hthreads] at hplace
    unfold Place at hplace
    unfold record
    cases hpc : (s.threads t).pc with
    | executeStep step =>
      rw [hpc] at hplace
      obtain ⟨_, _, hfinished, hlt⟩ := hplace
      rw [hfinished]
      exact Or.inr ⟨hlt, Eq.refl _⟩
    | _ => exact Or.inl (List.append_nil _)
  unfold Inv at h
  cases hpc : s.caller with
  | storeAlive | storeStep | storeThreadCount | storeRunCount | storeRunDone | bumpEpoch =>
    rw [hpc] at h
    refine ⟨0, Nat.zero_le _, Or.inl ?_⟩
    rw [h.1.record ht, h.2.2.1 t ht]
  | _ =>
    rw [hpc] at h
    exact hbarrier h.1 (Eq.refl _)

/-- Runs keep the invariant and the barrier. -/
theorem run_good (nThreads nSteps : ℕ) (schedule : List Actor) :
    (∃ finished, Inv nThreads nSteps (run nThreads nSteps schedule).1 finished ∧
      Recorded nThreads (run nThreads nSteps schedule).1 finished
        (run nThreads nSteps schedule).2) ∧
    BarrierKept nThreads nSteps (run nThreads nSteps schedule).2 := by
  induction schedule using List.reverseRecOn with
  | nil =>
    refine ⟨⟨fun _ => 0, inv_init nThreads nSteps, fun _ _ => Eq.refl _⟩, ?_, ?_, ?_⟩
    · intro before hprefix t _
      rw [List.prefix_nil.mp hprefix]
      exact ⟨0, Nat.zero_le _, Or.inl (Eq.refl _)⟩
    · intro before t step hprefix
      have hnil := List.prefix_nil.mp hprefix
      exact absurd hnil (List.append_ne_nil_of_right_ne_nil _ (List.cons_ne_nil _ _))
    · intro before hprefix
      have hnil := List.prefix_nil.mp hprefix
      exact absurd hnil (List.append_ne_nil_of_right_ne_nil _ (List.cons_ne_nil _ _))
  | append_singleton schedule actor ih =>
    obtain ⟨⟨finished, hinv, hrecorded⟩, hkept⟩ := ih
    rw [run_append_singleton]
    have ⟨⟨finished', hinv', hrecorded'⟩, hevents⟩ := good_step hinv hrecorded actor
    refine ⟨⟨finished', hinv', hrecorded'⟩, ?_⟩
    cases hevents with
    | inl hnil =>
      rw [hnil, List.append_nil]
      exact hkept
    | inr hone =>
      obtain ⟨event, hevent, hallowed⟩ := hone
      rw [hevent] at hrecorded' ⊢
      refine hkept.snoc hallowed fun t ht => ?_
      rw [hrecorded' t ht]
      exact hinv'.in_order ht

/-- Whatever the order of operations, in every forward all threads execute each step once
and together. -/
theorem executor_barrier (nThreads nSteps : ℕ) (schedule : List Actor) :
    BarrierKept nThreads nSteps (run nThreads nSteps schedule).2 :=
  (run_good nThreads nSteps schedule).2

/-- The second of two threads is late. -/
example : (run 2 1 (List.replicate 7 .caller ++ List.replicate 12 (.thread 0) ++
    List.replicate 12 (.thread 1) ++ List.replicate 8 (.thread 0) ++ List.replicate 8 (.thread 1) ++
    List.replicate 3 .caller)).2 =
      [.call, .start 0 0, .finish 0 0, .start 1 0, .finish 1 0, .returned] := by
  decide

end Traces

end LayerSkip.ExecutorBarrier

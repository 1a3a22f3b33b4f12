import LayerSkip.Dataflow
import Mathlib.Data.Set.Lattice
import Mathlib.Order.CompletePartialOrder
import Mathlib.Data.List.Perm.Basic

/-!
# Steps divided among threads

Each thread runs its part of every step of a list, with no barrier between the steps. When the
parts lie in disjoint regions and each part reads only in its own region, the threads can run
one after the other in any order: the memory is that after the undivided steps.
-/

namespace LayerSkip.ParallelSteps

open Dataflow

variable {L V : Type*}

/-- Locations that steps read. -/
def readBy (actions : List (Action L V)) : Set L := {l | ∃ a ∈ actions, l ∈ a.reads}

/-- A step is the part of another one in a region. -/
structure Part (region : Set L) (part whole : Action L V) : Prop where
  /-- The part reads in its region. -/
  reads : part.reads ⊆ region
  /-- It writes what the whole writes there. -/
  writes : part.writes = whole.writes ∩ region
  /-- It does there what the whole does. -/
  same : ∀ m m' : L → V, Set.EqOn m m' region → Set.EqOn (part.apply m) (whole.apply m') region

section Parts

variable {region : Set L} {parts wholes : List (Action L V)}

theorem run_parts (h : List.Forall₂ (Part region) parts wholes) {m m' : L → V}
    (hm : Set.EqOn m m' region) : Set.EqOn (run m parts) (run m' wholes) region := by
  induction h generalizing m m' with
  | nil => exact hm
  | cons hpart _ ih =>
    rw [run_cons, run_cons]
    exact ih (hpart.same m m' hm)

theorem written_parts (h : List.Forall₂ (Part region) parts wholes) :
    written (accesses parts) = written (accesses wholes) ∩ region := by
  induction h with
  | nil =>
    rw [accesses, List.map_nil, written_nil, Set.empty_inter]
  | cons hpart _ ih =>
    rw [accesses_cons, accesses_cons, written_cons, written_cons, ih, hpart.writes,
      Set.union_inter_distrib_right]

theorem readBy_parts (h : List.Forall₂ (Part region) parts wholes) : readBy parts ⊆ region := by
  induction h with
  | nil =>
    intro l hl
    obtain ⟨a, ha, _⟩ := hl
    cases ha
  | cons hpart _ ih =>
    intro l hl
    obtain ⟨a, ha, hread⟩ := hl
    cases List.mem_cons.mp ha with
    | inl hfirst =>
      rw [hfirst] at hread
      exact hpart.reads hread
    | inr hrest => exact ih ⟨a, hrest, hread⟩

end Parts

/-- Threads divide steps among disjoint regions. -/
structure Division (kernels : ℕ → List (Action L V)) (nThreads : ℕ) (wholes : List (Action L V))
    (region : ℕ → Set L) : Prop where
  /-- Every thread runs its part of every step. -/
  parts : ∀ t < nThreads, List.Forall₂ (Part (region t)) (kernels t) wholes
  /-- Regions of different threads have nothing in common. -/
  disjoint : ∀ t < nThreads, ∀ u < nThreads, t ≠ u → Disjoint (region t) (region u)
  /-- All that is written belongs to a thread. -/
  covers : ∀ l ∈ written (accesses wholes), ∃ t < nThreads, l ∈ region t

section Division

variable {kernels : ℕ → List (Action L V)} {nThreads : ℕ} {wholes : List (Action L V)}
  {region : ℕ → Set L}

/-- A thread leaves the regions of the others. -/
theorem Division.run_other (h : Division kernels nThreads wholes region) {t u : ℕ}
    (ht : t < nThreads) (hu : u < nThreads) (hne : t ≠ u) (m : L → V) :
    Set.EqOn (run m (kernels t)) m (region u) := by
  intro l hl
  refine run_of_notMem ?_
  rw [written_parts (h.parts t ht)]
  intro hwritten
  exact Set.disjoint_left.mp (h.disjoint t ht u hu hne) hwritten.2 hl

/-- The undivided steps do in a region what they find there. -/
theorem Division.run_region (h : Division kernels nThreads wholes region) {t : ℕ}
    (ht : t < nThreads) {m m' : L → V} (hm : Set.EqOn m m' (region t)) :
    Set.EqOn (run m wholes) (run m' wholes) (region t) := by
  have hself := run_parts (h.parts t ht) (fun _ _ => Eq.refl _ : Set.EqOn m m (region t))
  exact hself.symm.trans (run_parts (h.parts t ht) hm)

/-- Threads in any order, each at most once, leave in their regions what the undivided steps
leave there, and nothing else changes. -/
theorem Division.run_order (h : Division kernels nThreads wholes region) {order : List ℕ}
    (hnodup : order.Nodup) (hthreads : ∀ t ∈ order, t < nThreads) (m : L → V) :
    (∀ t ∈ order, Set.EqOn (run m (order.flatMap kernels)) (run m wholes) (region t)) ∧
      ∀ u < nThreads, u ∉ order → Set.EqOn (run m (order.flatMap kernels)) m (region u) := by
  induction order generalizing m with
  | nil =>
    constructor
    · intro t ht
      cases ht
    · intro u _ _ l _
      exact Eq.refl _
  | cons t order ih =>
    obtain ⟨hfresh, hnodup⟩ := List.nodup_cons.mp hnodup
    have ht := hthreads t List.mem_cons_self
    obtain ⟨hdone, hleft⟩ := ih hnodup (fun u hu => hthreads u (List.mem_cons_of_mem t hu))
      (run m (kernels t))
    rw [List.flatMap_cons, run_append]
    constructor
    · intro u hu
      cases List.mem_cons.mp hu with
      | inl hsame =>
        rw [hsame]
        exact (hleft t ht hfresh).trans
          (run_parts (h.parts t ht) (fun _ _ => Eq.refl _ : Set.EqOn m m (region t)))
      | inr hlater =>
        have hu := hthreads u (List.mem_cons_of_mem t hlater)
        have hne : t ≠ u := fun heq => hfresh (heq ▸ hlater)
        exact (hdone u hlater).trans (h.run_region hu (h.run_other ht hu hne m))
    · intro u hu hnot
      have hne : t ≠ u := fun heq => hnot (heq ▸ List.mem_cons_self)
      have hrest := hleft u hu fun hmem => hnot (List.mem_cons_of_mem t hmem)
      exact hrest.trans (h.run_other ht hu hne m)

/-- All threads, in any order, do together what the undivided steps do. -/
theorem Division.run_eq (h : Division kernels nThreads wholes region) {order : List ℕ}
    (hperm : order.Perm (List.range nThreads)) (m : L → V) :
    run m (order.flatMap kernels) = run m wholes := by
  have hnodup : order.Nodup := hperm.nodup_iff.mpr List.nodup_range
  have hmem (t : ℕ) : t ∈ order ↔ t < nThreads := by
    rw [hperm.mem_iff, List.mem_range]
  obtain ⟨hdone, _⟩ := h.run_order hnodup (fun t ht => (hmem t).mp ht) m
  funext l
  by_cases hl : l ∈ written (accesses wholes)
  · obtain ⟨t, ht, hregion⟩ := h.covers l hl
    exact hdone t ((hmem t).mpr ht) hregion
  · rw [run_of_notMem hl]
    refine run_of_notMem ?_
    intro hwritten
    obtain ⟨a, ha, hla⟩ := hwritten
    obtain ⟨action, haction, heq⟩ := List.mem_map.mp ha
    obtain ⟨t, ht, hkernel⟩ := List.mem_flatMap.mp haction
    have hpart : l ∈ written (accesses (kernels t)) :=
      ⟨a, heq ▸ List.mem_map_of_mem hkernel, hla⟩
    rw [written_parts (h.parts t ((hmem t).mp ht))] at hpart
    exact hl hpart.1

/-- The threads write together what the undivided steps write. -/
theorem Division.written_eq (h : Division kernels nThreads wholes region) :
    written (accesses ((List.range nThreads).flatMap kernels)) = written (accesses wholes) := by
  refine Set.Subset.antisymm ?_ ?_
  · intro l hl
    obtain ⟨a, ha, hla⟩ := hl
    obtain ⟨action, haction, heq⟩ := List.mem_map.mp ha
    obtain ⟨t, ht, hkernel⟩ := List.mem_flatMap.mp haction
    have hpart : l ∈ written (accesses (kernels t)) :=
      ⟨a, heq ▸ List.mem_map_of_mem hkernel, hla⟩
    rw [written_parts (h.parts t (List.mem_range.mp ht))] at hpart
    exact hpart.1
  · intro l hl
    obtain ⟨t, ht, hregion⟩ := h.covers l hl
    have hpart : l ∈ written (accesses (kernels t)) := by
      rw [written_parts (h.parts t ht)]
      exact ⟨hl, hregion⟩
    obtain ⟨a, ha, hla⟩ := hpart
    obtain ⟨action, haction, heq⟩ := List.mem_map.mp ha
    exact ⟨a, heq ▸ List.mem_map_of_mem
      (List.mem_flatMap.mpr ⟨t, List.mem_range.mpr ht, haction⟩), hla⟩

/-- No thread reads what another one writes. -/
theorem Division.reads_apart (h : Division kernels nThreads wholes region) {t u : ℕ}
    (ht : t < nThreads) (hu : u < nThreads) (hne : t ≠ u) :
    Disjoint (readBy (kernels t)) (written (accesses (kernels u))) := by
  rw [written_parts (h.parts u hu)]
  exact (h.disjoint t ht u hu hne).mono (readBy_parts (h.parts t ht)) Set.inter_subset_right

end Division

/-- The kernels of a step, by the number of threads and the thread, do the same however many
threads there are and in whatever order they run: the same memory as after a single thread,
with the given locations all written, and no thread reads what another one writes. -/
structure ThreadIndependent (kernels : ℕ → ℕ → List (Action L V)) (nThreads : ℕ) (rows : Set L) :
    Prop where
  /-- The memory afterwards is that of a single thread. -/
  sameOutput : ∀ order : List ℕ, order.Perm (List.range nThreads) → ∀ m : L → V,
    run m (order.flatMap (kernels nThreads)) = run m (kernels 1 0)
  /-- All rows are written, by the threads and by a single one. -/
  complete : rows ⊆ written (accesses ((List.range nThreads).flatMap (kernels nThreads))) ∧
    rows ⊆ written (accesses (kernels 1 0))
  /-- No thread reads what another one writes. -/
  apart : ∀ t < nThreads, ∀ u < nThreads, t ≠ u →
    Disjoint (readBy (kernels nThreads t)) (written (accesses (kernels nThreads u)))

/-- Kernels that divide the steps of a single thread are independent of the threads. -/
theorem ThreadIndependent.of_division {kernels : ℕ → ℕ → List (Action L V)} {nThreads : ℕ}
    {rows : Set L} {region : ℕ → Set L}
    (h : Division (kernels nThreads) nThreads (kernels 1 0) region)
    (hrows : rows ⊆ written (accesses (kernels 1 0))) : ThreadIndependent kernels nThreads rows := by
  constructor
  · intro order hperm m
    exact h.run_eq hperm m
  · constructor
    · rw [h.written_eq]
      exact hrows
    · exact hrows
  · intro t ht u hu hne
    exact h.reads_apart ht hu hne

end LayerSkip.ParallelSteps

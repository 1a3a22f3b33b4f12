import Mathlib.Data.List.Forall2
import Mathlib.Data.Set.Function
import Mathlib.Tactic.Common

/-!
# Steps that read and write locations

A list of steps over a memory. A step changes only the locations it writes, and
what it puts there depends only on the locations it reads. When every read is of
a location that is defined at the start or was written by an earlier step, two
memories that agree on the locations defined at the start end up agreeing there
and on all that was written.
-/

namespace LayerSkip.Dataflow

variable {L V : Type*}

/-- The locations a step reads and those it overwrites. -/
structure Access (L : Type*) where
  /-- Locations read. -/
  reads : Set L
  /-- Locations overwritten. -/
  writes : Set L

/-- Locations that some step overwrites. -/
def written (steps : List (Access L)) : Set L := {l | ∃ a ∈ steps, l ∈ a.writes}

/-- Every step reads only what is defined at the start or was written by an
earlier step. -/
def DefinedBefore (defined : Set L) : List (Access L) → Prop
  | [] => True
  | a :: steps => a.reads ⊆ defined ∧ DefinedBefore (defined ∪ a.writes) steps

@[simp] theorem written_nil : written ([] : List (Access L)) = ∅ := by
  simp [written]

@[simp] theorem written_cons (a : Access L) (steps : List (Access L)) :
    written (a :: steps) = a.writes ∪ written steps := by
  ext l
  simp [written]

/-- More defined locations do no harm. -/
theorem DefinedBefore.mono {defined more : Set L} {steps : List (Access L)}
    (h : DefinedBefore defined steps) (hle : defined ⊆ more) : DefinedBefore more steps := by
  induction steps generalizing defined more with
  | nil => trivial
  | cons a steps ih =>
    have hunion : defined ∪ a.writes ⊆ more ∪ a.writes := Set.union_subset_union_left _ hle
    exact ⟨h.1.trans hle, ih h.2 hunion⟩

/-- Two lists one after the other. -/
theorem definedBefore_append {defined : Set L} {first second : List (Access L)} :
    DefinedBefore defined (first ++ second) ↔
      DefinedBefore defined first ∧ DefinedBefore (defined ∪ written first) second := by
  induction first generalizing defined with
  | nil => simp [DefinedBefore]
  | cons a first ih =>
    rw [List.cons_append, DefinedBefore, ih, DefinedBefore, written_cons, Set.union_assoc, and_assoc]

/-- What a step reads, wherever it stands. -/
theorem DefinedBefore.reads_subset {defined : Set L} {first second : List (Access L)}
    {a : Access L} (h : DefinedBefore defined (first ++ a :: second)) :
    a.reads ⊆ defined ∪ written first :=
  (definedBefore_append.mp h).2.1

/-- A step over a memory: its accesses and the values it computes from what it
reads. -/
structure Action (L V : Type*) extends Access L where
  /-- New values, from those of the locations read. -/
  kernel : (reads → V) → L → V
  /-- The locations written can be told. -/
  decWrites : DecidablePred (· ∈ writes)

/-- The memory after a step. -/
def Action.apply (a : Action L V) (m : L → V) : L → V := fun l =>
  haveI := a.decWrites
  if l ∈ a.writes then a.kernel (fun r => m r) l else m l

/-- The memory after a list of steps. -/
def run (m : L → V) (actions : List (Action L V)) : L → V :=
  actions.foldl (fun m a => a.apply m) m

/-- The accesses of a list of steps. -/
def accesses (actions : List (Action L V)) : List (Access L) := actions.map Action.toAccess

@[simp] theorem run_nil (m : L → V) : run m [] = m := rfl

@[simp] theorem run_cons (m : L → V) (a : Action L V) (actions : List (Action L V)) :
    run m (a :: actions) = run (a.apply m) actions := rfl

theorem run_append (m : L → V) (first second : List (Action L V)) :
    run m (first ++ second) = run (run m first) second := List.foldl_append

@[simp] theorem accesses_cons (a : Action L V) (actions : List (Action L V)) :
    accesses (a :: actions) = a.toAccess :: accesses actions := rfl

theorem Action.apply_of_mem (a : Action L V) (m : L → V) {l : L} (h : l ∈ a.writes) :
    a.apply m l = a.kernel (fun r => m r) l := if_pos h

/-- A step leaves what it does not write. -/
theorem Action.apply_of_notMem (a : Action L V) (m : L → V) {l : L} (h : l ∉ a.writes) :
    a.apply m l = m l := if_neg h

/-- A run leaves what no step writes. -/
theorem run_of_notMem {actions : List (Action L V)} {m : L → V} {l : L}
    (h : l ∉ written (accesses actions)) : run m actions l = m l := by
  induction actions generalizing m with
  | nil => rfl
  | cons a actions ih =>
    rw [accesses_cons, written_cons, Set.mem_union, not_or] at h
    rw [run_cons, ih h.2, a.apply_of_notMem m h.1]

/-- A step that reads where two memories agree leaves them agreeing, also on
what it writes. -/
theorem Action.eqOn_apply (a : Action L V) {agreed : Set L} {m m' : L → V}
    (hreads : a.reads ⊆ agreed) (h : Set.EqOn m m' agreed) :
    Set.EqOn (a.apply m) (a.apply m') (agreed ∪ a.writes) := by
  have hread : (fun r : a.reads => m r) = fun r : a.reads => m' r := by
    funext r
    exact h (hreads r.2)
  intro l hl
  by_cases hw : l ∈ a.writes
  · rw [a.apply_of_mem m hw, a.apply_of_mem m' hw, hread]
  · rw [a.apply_of_notMem m hw, a.apply_of_notMem m' hw]
    rcases hl with hold | hnew
    · exact h hold
    · exact absurd hnew hw

/-- A step does what another does: from memories that agree where the first one reads both
leave memories that agree there and on what the first one writes. -/
def Action.Matches (a a' : Action L V) : Prop :=
  ∀ (agreed : Set L) (m m' : L → V), a.reads ⊆ agreed → Set.EqOn m m' agreed →
    Set.EqOn (a.apply m) (a'.apply m') (agreed ∪ a.writes)

theorem Action.matches_self (a : Action L V) : a.Matches a :=
  fun _ _ _ hreads h => a.eqOn_apply hreads h

/-- Memories that agree on what is defined at the start agree, after two runs whose steps
match, there and on all that was written. -/
theorem eqOn_run_of_matches {actions actions' : List (Action L V)} {agreed : Set L} {m m' : L → V}
    (hmatches : List.Forall₂ Action.Matches actions actions')
    (hdef : DefinedBefore agreed (accesses actions)) (h : Set.EqOn m m' agreed) :
    Set.EqOn (run m actions) (run m' actions') (agreed ∪ written (accesses actions)) := by
  induction hmatches generalizing agreed m m' with
  | nil =>
    intro l hl
    rw [accesses, List.map_nil, written_nil, Set.union_empty] at hl
    exact h hl
  | cons hfirst _ ih =>
    have hstep := ih hdef.2 (hfirst agreed m m' hdef.1 h)
    rw [Set.union_assoc] at hstep
    rw [accesses_cons, written_cons]
    exact hstep

/-- Memories that agree on what is defined at the start agree, after the run,
there and on all that was written. -/
theorem eqOn_run {actions : List (Action L V)} {agreed : Set L} {m m' : L → V}
    (hdef : DefinedBefore agreed (accesses actions)) (h : Set.EqOn m m' agreed) :
    Set.EqOn (run m actions) (run m' actions) (agreed ∪ written (accesses actions)) :=
  eqOn_run_of_matches (List.forall₂_same.mpr fun a _ => a.matches_self) hdef h

/-- Steps that also read some extra locations, which are defined at the start. -/
theorem DefinedBefore.widen {defined extra : Set L} {steps wider : List (Access L)}
    (h : DefinedBefore defined steps)
    (hwider : List.Forall₂ (fun a b => b.reads ⊆ a.reads ∪ extra ∧ a.writes ⊆ b.writes) steps
      wider) : DefinedBefore (defined ∪ extra) wider := by
  induction hwider generalizing defined with
  | nil => trivial
  | cons hfirst _ ih =>
    have hrest := ih h.2
    constructor
    · exact hfirst.1.trans (Set.union_subset_union_left extra h.1)
    · apply hrest.mono
      rw [Set.union_right_comm]
      exact Set.union_subset_union_right _ hfirst.2

end LayerSkip.Dataflow

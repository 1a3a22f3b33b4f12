import LayerSkip.Dataflow
import Mathlib.Order.Defs.PartialOrder

/-!
# Regions that are read and written

Steps read and write regions, which are ordered by inclusion. A region is known when it is part of
one that was given or written before. What a list of steps needs and what is known after it is said
in triples, which are put together one after the other. Steps that read only known regions read no
location that is not defined.
-/

namespace LayerSkip.RegionFlow

open Dataflow

/-- Regions that a step reads and those it writes. -/
structure Use (R : Type*) where
  /-- Regions read. -/
  reads : List R
  /-- Regions written. -/
  writes : List R

section Triples

variable {R : Type*}

/-- Regions that are known after some steps. -/
def after (known : List R) : List (Use R) → List R
  | [] => known
  | u :: us => after (u.writes ++ known) us

theorem after_append (known : List R) (us vs : List (Use R)) :
    after known (us ++ vs) = after (after known us) vs := by
  induction us generalizing known with
  | nil => exact Eq.refl _
  | cons u us ih => exact ih (u.writes ++ known)

variable [Preorder R]

/-- A region is part of a known one. -/
def Covered (known : List R) (r : R) : Prop := ∃ w ∈ known, r ≤ w

/-- Every step reads known regions only. -/
def Checks (known : List R) : List (Use R) → Prop
  | [] => True
  | u :: us => (∀ r ∈ u.reads, Covered known r) ∧ Checks (u.writes ++ known) us

/-- Steps that read known regions only when they start with some regions, and the regions that are
known after them. -/
def Triple (pre : List R) (us : List (Use R)) (post : List R) : Prop :=
  ∀ known, (∀ r ∈ pre, Covered known r) →
    Checks known us ∧ ∀ r ∈ post, Covered (after known us) r

@[simp] theorem covered_nil (r : R) : ¬Covered [] r := by
  simp [Covered]

@[simp] theorem covered_cons (w : R) (known : List R) (r : R) :
    Covered (w :: known) r ↔ r ≤ w ∨ Covered known r := by
  simp [Covered]

theorem covered_append (known more : List R) (r : R) :
    Covered (known ++ more) r ↔ Covered known r ∨ Covered more r := by
  induction known with
  | nil => simp
  | cons w known ih => rw [List.cons_append, covered_cons, ih, covered_cons, or_assoc]

theorem covered_of_mem {known : List R} {r : R} (h : r ∈ known) : Covered known r :=
  ⟨r, h, le_refl r⟩

theorem Covered.trans {known more : List R} {r : R} (h : Covered known r)
    (hmore : ∀ w ∈ known, Covered more w) : Covered more r := by
  obtain ⟨w, hw, hle⟩ := h
  obtain ⟨v, hv, hlew⟩ := hmore w hw
  exact ⟨v, hv, le_trans hle hlew⟩

/-- Steps forget nothing. -/
theorem Covered.after {known : List R} {r : R} (h : Covered known r) (us : List (Use R)) :
    Covered (after known us) r := by
  induction us generalizing known with
  | nil => exact h
  | cons u us ih => exact ih ((covered_append _ _ _).mpr (.inr h))

theorem checks_append (known : List R) (us vs : List (Use R)) :
    Checks known (us ++ vs) ↔ Checks known us ∧ Checks (after known us) vs := by
  induction us generalizing known with
  | nil => simp [Checks, RegionFlow.after]
  | cons u us ih =>
    rw [List.cons_append, Checks, ih, Checks, and_assoc]
    exact Iff.rfl

/-- More known regions do no harm. -/
theorem checks_mono {known more : List R} {us : List (Use R)} (h : Checks known us)
    (hmore : ∀ w ∈ known, Covered more w) :
    Checks more us ∧ ∀ w ∈ after known us, Covered (after more us) w := by
  induction us generalizing known more with
  | nil => exact ⟨trivial, hmore⟩
  | cons u us ih =>
    obtain ⟨hreads, hrest⟩ := h
    have hgrown : ∀ w ∈ u.writes ++ known, Covered (u.writes ++ more) w := by
      intro w hw
      rw [covered_append]
      cases List.mem_append.mp hw with
      | inl hwritten => exact .inl (covered_of_mem hwritten)
      | inr hknown => exact .inr (hmore w hknown)
    obtain ⟨hchecks, hafter⟩ := ih hrest hgrown
    exact ⟨⟨fun r hr => (hreads r hr).trans hmore, hchecks⟩, hafter⟩

/-- A triple is checked with the regions that it starts with. -/
theorem triple_iff {pre post : List R} {us : List (Use R)} :
    Triple pre us post ↔ Checks pre us ∧ ∀ r ∈ post, Covered (after pre us) r := by
  constructor
  · intro h
    exact h pre fun r hr => covered_of_mem hr
  · intro h known hknown
    obtain ⟨hchecks, hafter⟩ := checks_mono h.1 hknown
    exact ⟨hchecks, fun r hr => (h.2 r hr).trans hafter⟩

theorem Triple.nil (pre : List R) : Triple pre [] pre := by
  intro known h
  exact ⟨trivial, h⟩

/-- Steps that start with more, and of whose results fewer are needed. -/
theorem Triple.weaken {pre pre' post post' : List R} {us : List (Use R)} (h : Triple pre us post)
    (hpre : pre ⊆ pre') (hpost : post' ⊆ post) : Triple pre' us post' := by
  intro known hknown
  obtain ⟨hchecks, hafter⟩ := h known fun r hr => hknown r (hpre hr)
  exact ⟨hchecks, fun r hr => hafter r (hpost hr)⟩

/-- What was known stays known. -/
theorem Triple.keep {pre post : List R} {us : List (Use R)} (h : Triple pre us post) :
    Triple pre us (pre ++ post) := by
  intro known hknown
  obtain ⟨hchecks, hafter⟩ := h known hknown
  constructor
  · exact hchecks
  · intro r hr
    cases List.mem_append.mp hr with
    | inl hpre => exact (hknown r hpre).after us
    | inr hpost => exact hafter r hpost

/-- One list of steps after another. -/
theorem Triple.append {pre mid post : List R} {us vs : List (Use R)} (hus : Triple pre us mid)
    (hvs : Triple mid vs post) : Triple pre (us ++ vs) post := by
  intro known hknown
  obtain ⟨hfirst, hmid⟩ := hus known hknown
  obtain ⟨hsecond, hpost⟩ := hvs (after known us) hmid
  rw [checks_append, after_append]
  exact ⟨⟨hfirst, hsecond⟩, hpost⟩

/-- The second list may use all that was known before the first one, and its results are added to
those of the first one. -/
theorem Triple.seq {pre mid need post : List R} {us vs : List (Use R)} (hus : Triple pre us mid)
    (hvs : Triple need vs post) (hneed : need ⊆ pre ++ mid) :
    Triple pre (us ++ vs) (mid ++ post) := by
  have hfirst : Triple pre us (pre ++ mid) := hus.keep
  have hsecond : Triple (pre ++ mid) vs (pre ++ mid ++ post) :=
    (hvs.weaken hneed fun _ h => h).keep
  exact (hfirst.append hsecond).weaken (fun _ h => h) fun r hr => by
    rw [List.append_assoc]
    exact List.mem_append_right _ hr

end Triples

section Locations

variable {R L : Type*}

/-- The locations of some regions. -/
def cellsOf (cells : R → Set L) (rs : List R) : Set L := {l | ∃ r ∈ rs, l ∈ cells r}

/-- A step's locations. -/
def access (cells : R → Set L) (u : Use R) : Access L :=
  ⟨cellsOf cells u.reads, cellsOf cells u.writes⟩

theorem cellsOf_append (cells : R → Set L) (rs more : List R) :
    cellsOf cells (rs ++ more) = cellsOf cells rs ∪ cellsOf cells more := by
  ext l
  simp [cellsOf, or_and_right, exists_or]

/-- The locations known after some steps. -/
theorem cellsOf_after (cells : R → Set L) (known : List R) (us : List (Use R)) :
    cellsOf cells (after known us) =
      cellsOf cells known ∪ written (us.map (access cells)) := by
  induction us generalizing known with
  | nil => rw [after, List.map_nil, written_nil, Set.union_empty]
  | cons u us ih =>
    rw [after, ih, cellsOf_append, List.map_cons, written_cons, Set.union_comm (cellsOf cells _),
      Set.union_assoc]
    exact Eq.refl _

variable [Preorder R] {cells : R → Set L}

/-- Parts of known regions have known locations. -/
theorem cellsOf_subset (hcells : ∀ r w, r ≤ w → cells r ⊆ cells w) {known rs : List R}
    (h : ∀ r ∈ rs, Covered known r) : cellsOf cells rs ⊆ cellsOf cells known := by
  intro l hl
  obtain ⟨r, hr, hmem⟩ := hl
  obtain ⟨w, hw, hle⟩ := h r hr
  exact ⟨w, hw, hcells r w hle hmem⟩

/-- Steps that read known regions only read only what is defined at the start or was written
before. -/
theorem definedBefore_of_checks (hcells : ∀ r w, r ≤ w → cells r ⊆ cells w) {known : List R} {us : List (Use R)}
    (h : Checks known us) : DefinedBefore (cellsOf cells known) (us.map (access cells)) := by
  induction us generalizing known with
  | nil => trivial
  | cons u us ih =>
    obtain ⟨hreads, hrest⟩ := h
    constructor
    · exact cellsOf_subset hcells hreads
    · have hmore := ih hrest
      rw [cellsOf_append, Set.union_comm] at hmore
      exact hmore

end Locations

end LayerSkip.RegionFlow

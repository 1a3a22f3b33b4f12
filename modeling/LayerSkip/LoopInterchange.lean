import Mathlib.Data.Set.Function
import Mathlib.Tactic.Common

/-!
# Loops that can be interchanged

A function on memories is local when it changes only some locations, and what it puts there depends
only on some locations. Two local functions commute when neither changes what the other one reads or
changes. Operations that are each run on all rows can be run row by row, all operations on one row
after the other, when an earlier operation on a later row commutes with a later operation on an
earlier row.
-/

namespace LayerSkip.LoopInterchange

section Local

variable {L V : Type*} {Good : (L → V) → Prop} {reads writes reads' writes' : Set L}
  {f g : (L → V) → L → V}

/-- Among the good memories a function reads and writes some locations only. -/
structure Local (Good : (L → V) → Prop) (reads writes : Set L) (f : (L → V) → L → V) : Prop where
  /-- Good memories stay good. -/
  good : ∀ m, Good m → Good (f m)
  /-- Nothing else changes. -/
  frame : ∀ m, Good m → ∀ l, l ∉ writes → f m l = m l
  /-- New values come from what is read. -/
  depends : ∀ m m', Good m → Good m' → Set.EqOn m m' reads → Set.EqOn (f m) (f m') writes

/-- Neither of two functions writes what the other one reads or writes. -/
structure Apart (reads writes reads' writes' : Set L) : Prop where
  /-- The first one keeps what the second one reads. -/
  first : ∀ l ∈ writes, l ∉ reads'
  /-- The second one keeps what the first one reads. -/
  second : ∀ l ∈ writes', l ∉ reads
  /-- They write different locations. -/
  both : ∀ l ∈ writes, l ∉ writes'

/-- A function does the same after another one that it has nothing to do with. -/
theorem Local.eqOn_after (hf : Local Good reads writes f) (hg : Local Good reads' writes' g)
    (hapart : ∀ l ∈ writes', l ∉ reads) {m : L → V} (hm : Good m) :
    Set.EqOn (f (g m)) (f m) writes := by
  apply hf.depends (g m) m (hg.good m hm) hm
  intro l hl
  exact hg.frame m hm l fun hwritten => hapart l hwritten hl

/-- Functions that have nothing to do with each other commute. -/
theorem Local.comm (hf : Local Good reads writes f) (hg : Local Good reads' writes' g)
    (hapart : Apart reads writes reads' writes') {m : L → V} (hm : Good m) : f (g m) = g (f m) := by
  funext l
  by_cases hl : l ∈ writes
  · have hfirst := hf.eqOn_after hg hapart.second hm hl
    rw [hfirst, hg.frame (f m) (hf.good m hm) l (hapart.both l hl)]
  · rw [hf.frame (g m) (hg.good m hm) l hl]
    by_cases hl' : l ∈ writes'
    · exact (hg.eqOn_after hf hapart.first hm hl').symm
    · rw [hg.frame m hm l hl', hg.frame (f m) (hf.good m hm) l hl', hf.frame m hm l hl]

end Local

section Loops

variable {M O : Type*} (task : O → ℕ → M → M)

/-- An operation on all rows. -/
def onRows (rows : List ℕ) (op : O) (m : M) : M := rows.foldl (fun m y => task op y m) m

/-- All operations on a row. -/
def onRow (ops : List O) (y : ℕ) (m : M) : M := ops.foldl (fun m op => task op y m) m

/-- One operation after the other, each on all rows. -/
def byOperation (rows : List ℕ) (ops : List O) (m : M) : M :=
  ops.foldl (fun m op => onRows task rows op m) m

/-- One row after the other, each with all operations. -/
def byRow (rows : List ℕ) (ops : List O) (m : M) : M :=
  rows.foldl (fun m y => onRow task ops y m) m

/-- What makes the two orders the same: an operation on a row commutes with an earlier operation on
a later row. -/
structure Interchanges (Good : M → Prop) (rows : List ℕ) (ops : List O) : Prop where
  /-- Good memories stay good. -/
  good : ∀ op ∈ ops, ∀ y ∈ rows, ∀ m, Good m → Good (task op y m)
  /-- Tasks that change places. -/
  comm : ops.Pairwise fun op op' => rows.Pairwise fun y y' => ∀ m, Good m →
    task op' y (task op y' m) = task op y' (task op' y m)

variable {task} {Good : M → Prop} {rows : List ℕ} {ops : List O}

theorem onRow_cons (op : O) (ops : List O) (y : ℕ) (m : M) :
    onRow task (op :: ops) y m = onRow task ops y (task op y m) := List.foldl_cons

theorem onRows_cons (y : ℕ) (rows : List ℕ) (op : O) (m : M) :
    onRows task (y :: rows) op m = onRows task rows op (task op y m) := List.foldl_cons

theorem byRow_cons (y : ℕ) (rows : List ℕ) (ops : List O) (m : M) :
    byRow task (y :: rows) ops m = byRow task rows ops (onRow task ops y m) := List.foldl_cons

theorem good_onRow {y : ℕ} (hgood : ∀ op ∈ ops, ∀ m, Good m → Good (task op y m)) {m : M}
    (hm : Good m) : Good (onRow task ops y m) := by
  induction ops generalizing m with
  | nil => exact hm
  | cons op ops ih =>
    rw [onRow_cons]
    exact ih (fun op' hop' => hgood op' (List.mem_cons_of_mem op hop'))
      (hgood op List.mem_cons_self m hm)

theorem good_onRows {op : O} (hgood : ∀ y ∈ rows, ∀ m, Good m → Good (task op y m)) {m : M}
    (hm : Good m) : Good (onRows task rows op m) := by
  induction rows generalizing m with
  | nil => exact hm
  | cons y rows ih =>
    rw [onRows_cons]
    exact ih (fun z hz => hgood z (List.mem_cons_of_mem y hz)) (hgood y List.mem_cons_self m hm)

theorem byRow_nil (rows : List ℕ) (m : M) : byRow task rows [] m = m := by
  induction rows with
  | nil => exact Eq.refl _
  | cons y rows ih => exact ih

/-- A task that commutes with all operations on a row. -/
theorem onRow_comm {y : ℕ} {f : M → M}
    (hgood : ∀ op ∈ ops, ∀ m, Good m → Good (task op y m))
    (hcomm : ∀ op ∈ ops, ∀ m, Good m → task op y (f m) = f (task op y m)) {m : M} (hm : Good m) :
    onRow task ops y (f m) = f (onRow task ops y m) := by
  induction ops generalizing m with
  | nil => exact Eq.refl _
  | cons op ops ih =>
    rw [onRow_cons, onRow_cons, hcomm op List.mem_cons_self m hm]
    exact ih (fun op' hop' => hgood op' (List.mem_cons_of_mem op hop'))
      (fun op' hop' => hcomm op' (List.mem_cons_of_mem op hop'))
      (hgood op List.mem_cons_self m hm)

/-- The later operations on the first row do not notice the first operation on the other rows. -/
theorem onRow_onRows {y : ℕ} {op : O} (hgood : ∀ op' ∈ op :: ops, ∀ y' ∈ y :: rows, ∀ m, Good m →
      Good (task op' y' m))
    (hcomm : ∀ op' ∈ ops, ∀ y' ∈ rows, ∀ m, Good m →
      task op' y (task op y' m) = task op y' (task op' y m)) {m : M} (hm : Good m) :
    onRow task ops y (onRows task rows op m) = onRows task rows op (onRow task ops y m) := by
  induction rows generalizing m with
  | nil => exact Eq.refl _
  | cons y' rows ih =>
    have hmem : y' ∈ y :: y' :: rows := List.mem_cons_of_mem y List.mem_cons_self
    have hfirst := onRow_comm (f := task op y')
      (fun op' hop' => hgood op' (List.mem_cons_of_mem op hop') y List.mem_cons_self)
      (fun op' hop' => hcomm op' hop' y' List.mem_cons_self) hm
    have hrest := ih
      (fun op' hop' z hz => hgood op' hop' z (by
        cases List.mem_cons.mp hz with
        | inl hsame => exact hsame ▸ List.mem_cons_self
        | inr hlater => exact List.mem_cons_of_mem y (List.mem_cons_of_mem y' hlater)))
      (fun op' hop' z hz => hcomm op' hop' z (List.mem_cons_of_mem y' hz))
      (hgood op List.mem_cons_self y' hmem m hm)
    rw [onRows_cons, onRows_cons, hrest, hfirst]

/-- The first operation on all rows and then the others, or each row with all of them. -/
theorem byRow_onRows {op : O} (h : Interchanges task Good rows (op :: ops)) {m : M} (hm : Good m) :
    byRow task rows ops (onRows task rows op m) = byRow task rows (op :: ops) m := by
  induction rows generalizing m with
  | nil => exact Eq.refl _
  | cons y rows ih =>
    have hmem (op' : O) (hop' : op' ∈ op :: ops) (z : ℕ) (hz : z ∈ rows) :=
      h.good op' hop' z (List.mem_cons_of_mem y hz)
    have hcomm := (List.pairwise_cons.mp h.comm).1
    have hfirst := h.good op List.mem_cons_self y List.mem_cons_self m hm
    have hrow := onRow_onRows h.good
      (fun op' hop' => (List.pairwise_cons.mp (hcomm op' hop')).1) hfirst
    have hsmaller : Interchanges task Good rows (op :: ops) :=
      ⟨hmem, h.comm.imp fun hpair => hpair.of_cons⟩
    have hdone := good_onRow (fun op' hop' =>
      h.good op' (List.mem_cons_of_mem op hop') y List.mem_cons_self) hfirst
    rw [onRows_cons, byRow_cons, byRow_cons, onRow_cons, hrow, ih hsmaller hdone]

/-- Operations that are each run on all rows can be run row by row. -/
theorem byOperation_eq_byRow (h : Interchanges task Good rows ops) {m : M} (hm : Good m) :
    byOperation task rows ops m = byRow task rows ops m := by
  induction ops generalizing m with
  | nil => exact (byRow_nil rows m).symm
  | cons op ops ih =>
    have hrest : Interchanges task Good rows ops :=
      ⟨fun op' hop' => h.good op' (List.mem_cons_of_mem op hop'), h.comm.of_cons⟩
    have hdone := good_onRows (h.good op List.mem_cons_self) hm
    rw [byOperation, List.foldl_cons, ← byOperation, ih hrest hdone, byRow_onRows h hm]

end Loops

end LayerSkip.LoopInterchange

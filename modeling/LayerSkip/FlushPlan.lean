import Mathlib.Data.List.Basic
import Mathlib.Tactic.Common

/-!
# Flushes before reads

Operations modify things and read things. A plan collects what is modified. Before an operation that
reads one of the collected things it flushes them all and starts anew. The points of the flushes
depend on the operations alone, and a thing is flushed after its operation exactly when some flush
comes after it.
-/

namespace LayerSkip.FlushPlan

variable {B : Type*}

/-- What an operation reads and what it modifies. -/
structure Accesses (B : Type*) where
  /-- Read. -/
  reads : List B
  /-- Modified. -/
  modifies : List B
  deriving DecidableEq, Repr

section Flushes

/-- An operation modifies a thing. -/
def Modifies (ops : List (Accesses B)) (k : ℕ) (b : B) : Prop :=
  ∃ op, ops[k]? = some op ∧ b ∈ op.modifies

/-- An operation reads a thing. -/
def Reads (ops : List (Accesses B)) (k : ℕ) (b : B) : Prop :=
  ∃ op, ops[k]? = some op ∧ b ∈ op.reads

/-- There is a flush before an operation: it reads what an earlier one modifies, and no flush is in
between. -/
def Flushes (ops : List (Accesses B)) (k : ℕ) : Prop :=
  ∃ m, ∃ _ : m < k, (∃ b, Modifies ops m b ∧ Reads ops k b) ∧
    ∀ l, m < l → ∀ _ : l < k, ¬ Flushes ops l
termination_by k

theorem flushes_iff {ops : List (Accesses B)} {k : ℕ} :
    Flushes ops k ↔ ∃ m < k, (∃ b, Modifies ops m b ∧ Reads ops k b) ∧
      ∀ l, m < l → l < k → ¬ Flushes ops l := by
  rw [Flushes]
  constructor
  · intro h
    obtain ⟨m, hm, hconflict, hquiet⟩ := h
    exact ⟨m, hm, hconflict, hquiet⟩
  · intro h
    obtain ⟨m, hm, hconflict, hquiet⟩ := h
    exact ⟨m, hm, hconflict, hquiet⟩

/-- A thing is collected as long as no flush comes after its operation. -/
def Pending (ops : List (Accesses B)) (k : ℕ) (b : B) : Prop :=
  ∃ m < k, Modifies ops m b ∧ ∀ l, m < l → l < k → ¬ Flushes ops l

/-- One operation: what is pending after it. -/
theorem pending_succ {ops : List (Accesses B)} {k : ℕ} {op : Accesses B} (hop : ops[k]? = some op)
    (b : B) :
    Pending ops (k + 1) b ↔ ¬ Flushes ops k ∧ Pending ops k b ∨ b ∈ op.modifies := by
  constructor
  · intro h
    obtain ⟨m, hm, hmod, hquiet⟩ := h
    by_cases hlast : m = k
    · obtain ⟨op', hop', hb⟩ := hmod
      have heq : op' = op := Option.some.inj (hop'.symm.trans (hlast ▸ hop))
      exact .inr (heq ▸ hb)
    · have hlt : m < k := by omega
      refine .inl ⟨hquiet k hlt (Nat.lt_succ_self k), m, hlt, hmod, ?_⟩
      intro l hl hlk
      exact hquiet l hl (Nat.lt_succ_of_lt hlk)
  · intro h
    cases h with
    | inl h =>
      obtain ⟨hnot, m, hm, hmod, hquiet⟩ := h
      refine ⟨m, Nat.lt_succ_of_lt hm, hmod, ?_⟩
      intro l hl hlk
      by_cases hlast : l = k
      · exact hlast ▸ hnot
      · exact hquiet l hl (by omega)
    | inr h =>
      refine ⟨k, Nat.lt_succ_self k, ⟨op, hop, h⟩, ?_⟩
      intro l hl hlk
      omega

/-- A flush after an operation and not after another one. -/
def FlushBetween (ops : List (Accesses B)) (i j : ℕ) : Prop :=
  ∃ k, i < k ∧ k ≤ j ∧ Flushes ops k

/-- The first flush after an operation. -/
theorem first_flush {ops : List (Accesses B)} {i j : ℕ} (h : FlushBetween ops i j) :
    ∃ k, i < k ∧ k ≤ j ∧ Flushes ops k ∧ ∀ l, i < l → l < k → ¬ Flushes ops l := by
  obtain ⟨k, hik, hkj, hflush⟩ := h
  induction k using Nat.strongRecOn with
  | ind k ih =>
    by_cases hearlier : ∃ l, i < l ∧ l < k ∧ Flushes ops l
    · obtain ⟨l, hil, hlk, hl⟩ := hearlier
      exact ih l hlk hil (Nat.le_trans (Nat.le_of_lt hlk) hkj) hl
    · refine ⟨k, hik, hkj, hflush, ?_⟩
      intro l hil hlk hl
      exact hearlier ⟨l, hil, hlk, hl⟩

/-- Reading a modified thing makes a flush. -/
theorem flushBetween_of_reads {ops : List (Accesses B)} {i j : ℕ} {b : B} (hij : i < j)
    (hmod : Modifies ops i b) (hread : Reads ops j b) : FlushBetween ops i j := by
  by_cases hearlier : ∃ l, i < l ∧ l < j ∧ Flushes ops l
  · obtain ⟨l, hil, hlj, hl⟩ := hearlier
    exact ⟨l, hil, Nat.le_of_lt hlj, hl⟩
  · refine ⟨j, hij, Nat.le_refl j, flushes_iff.mpr ⟨i, hij, ⟨b, hmod, hread⟩, ?_⟩⟩
    intro l hil hlj hl
    exact hearlier ⟨l, hil, hlj, hl⟩

end Flushes

section Plan

variable [DecidableEq B]

/-- The operation reads a collected thing. -/
def Meets (modified : List B) (op : Accesses B) : Prop := ∃ b ∈ op.reads, b ∈ modified

instance (modified : List B) (op : Accesses B) : Decidable (Meets modified op) :=
  inferInstanceAs (Decidable (∃ b ∈ op.reads, b ∈ modified))

/-- The flush before an operation. -/
def flushed (modified : List B) (op : Accesses B) : List B :=
  if Meets modified op then modified else []

/-- What is collected after an operation. -/
def advance (modified : List B) (op : Accesses B) : List B :=
  op.modifies.foldl (fun modified b => if b ∈ modified then modified else modified ++ [b])
    (if Meets modified op then [] else modified)

/-- The flushes before all operations. -/
def plan (modified : List B) : List (Accesses B) → List (List B)
  | [] => []
  | op :: ops => flushed modified op :: plan (advance modified op) ops

/-- What is collected before an operation. -/
def collected (modified : List B) (ops : List (Accesses B)) (k : ℕ) : List B :=
  (ops.take k).foldl advance modified

theorem mem_collect {b : B} {modified added : List B} :
    b ∈ added.foldl (fun modified b => if b ∈ modified then modified else modified ++ [b])
      modified ↔ b ∈ modified ∨ b ∈ added := by
  induction added generalizing modified with
  | nil => simp
  | cons a added ih =>
    rw [List.foldl_cons, ih]
    by_cases ha : a ∈ modified
    · rw [if_pos ha, List.mem_cons]
      constructor
      · intro h
        cases h with
        | inl h => exact .inl h
        | inr h => exact .inr (.inr h)
      · intro h
        cases h with
        | inl h => exact .inl h
        | inr h =>
          cases h with
          | inl h => exact .inl (h ▸ ha)
          | inr h => exact .inr h
    · rw [if_neg ha]
      simp only [List.mem_append, List.mem_cons, List.not_mem_nil, or_false, or_assoc]

/-- One operation keeps what is collected, unless it flushes, and adds what it modifies. -/
theorem mem_advance {b : B} {modified : List B} {op : Accesses B} :
    b ∈ advance modified op ↔ ¬ Meets modified op ∧ b ∈ modified ∨ b ∈ op.modifies := by
  rw [advance, mem_collect]
  by_cases hmeets : Meets modified op
  · simp [hmeets]
  · simp [hmeets]

theorem plan_getElem? (modified : List B) (ops : List (Accesses B)) (k : ℕ) :
    (plan modified ops)[k]? = ops[k]?.map (flushed (collected modified ops k)) := by
  induction ops generalizing modified k with
  | nil => simp [plan]
  | cons op ops ih =>
    cases k with
    | zero => simp [plan, collected]
    | succ k =>
      have hrest := ih (advance modified op) k
      simpa [plan, collected] using hrest

theorem collected_succ {ops : List (Accesses B)} {k : ℕ} {op : Accesses B}
    (h : ops[k]? = some op) :
    collected [] ops (k + 1) = advance (collected [] ops k) op := by
  rw [collected, List.take_add_one, h, List.foldl_append]
  exact Eq.refl _

theorem meets_iff {ops : List (Accesses B)} {k : ℕ} {op : Accesses B} (hop : ops[k]? = some op)
    (h : ∀ b, b ∈ collected [] ops k ↔ Pending ops k b) :
    Meets (collected [] ops k) op ↔ Flushes ops k := by
  rw [flushes_iff]
  constructor
  · intro hmeets
    obtain ⟨b, hread, hmem⟩ := hmeets
    obtain ⟨m, hm, hmod, hquiet⟩ := (h b).mp hmem
    exact ⟨m, hm, ⟨b, hmod, op, hop, hread⟩, hquiet⟩
  · intro hflush
    obtain ⟨m, hm, ⟨b, hmod, op', hop', hread⟩, hquiet⟩ := hflush
    have heq : op' = op := Option.some.inj (hop'.symm.trans hop)
    exact ⟨b, heq ▸ hread, (h b).mpr ⟨m, hm, hmod, hquiet⟩⟩

/-- All operations: what is collected is what is pending. -/
theorem mem_collected {ops : List (Accesses B)} {k : ℕ} (hk : k ≤ ops.length) (b : B) :
    b ∈ collected [] ops k ↔ Pending ops k b := by
  induction k generalizing b with
  | zero =>
    constructor
    · intro h
      simp [collected] at h
    · intro h
      obtain ⟨m, hm, _⟩ := h
      omega
  | succ k ih =>
    have hop : ops[k]? = some ops[k] := List.getElem?_eq_getElem hk
    have hbefore := fun b => ih (Nat.le_of_lt hk) b
    rw [collected_succ hop, mem_advance, meets_iff hop hbefore, hbefore b, pending_succ hop]

/-- What is flushed before an operation. -/
theorem mem_plan {ops : List (Accesses B)} {k : ℕ} {b : B} {planned : List B}
    (h : (plan [] ops)[k]? = some planned) :
    b ∈ planned ↔ Flushes ops k ∧ Pending ops k b := by
  rw [plan_getElem?] at h
  obtain ⟨op, hop, hplanned⟩ := Option.map_eq_some_iff.mp h
  obtain ⟨hk, _⟩ := List.getElem?_eq_some_iff.mp hop
  have hcollected := mem_collected (Nat.le_of_lt hk)
  rw [← hplanned, flushed, ← meets_iff hop hcollected, ← hcollected b]
  by_cases hmeets : Meets (collected [] ops k) op
  · simp [hmeets]
  · simp [hmeets]

/-- A modified thing is flushed up to a later operation exactly when there is a flush. -/
theorem planned_between_iff {ops : List (Accesses B)} {i j : ℕ} {b : B} (hj : j < ops.length)
    (hmod : Modifies ops i b) :
    (∃ k planned, i < k ∧ k ≤ j ∧ (plan [] ops)[k]? = some planned ∧ b ∈ planned) ↔
      FlushBetween ops i j := by
  constructor
  · intro h
    obtain ⟨k, planned, hik, hkj, hplan, hb⟩ := h
    exact ⟨k, hik, hkj, ((mem_plan hplan).mp hb).1⟩
  · intro h
    obtain ⟨k, hik, hkj, hflush, hquiet⟩ := first_flush h
    have hop : ops[k]? = some ops[k] := List.getElem?_eq_getElem (Nat.lt_of_le_of_lt hkj hj)
    have hplan := plan_getElem? [] ops k
    rw [hop] at hplan
    exact ⟨k, _, hik, hkj, hplan, (mem_plan hplan).mpr ⟨hflush, i, hik, hmod, hquiet⟩⟩

end Plan

end LayerSkip.FlushPlan

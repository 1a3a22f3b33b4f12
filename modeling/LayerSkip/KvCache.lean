import Mathlib.Logic.Function.Basic
import Mathlib.Data.Nat.Notation
import Mathlib.Data.List.Basic
import Mathlib.Tactic.Common

/-!
# Rows of a key or value cache

A forward writes the row of every position of its batch, with sequence
parallelism only those of its own range. Attention at a position reads all rows
up to it. What a row holds is named by the forward that wrote it last.
-/

namespace LayerSkip.KvCache

/-- A cache: for every row the mark of what was written last. -/
abbrev Rows (α : Type*) := ℕ → Option α

/-- Rows an operation may write; no limit when the length is 0. -/
structure LocalRange where
  /-- First row. -/
  localSeqStart : ℕ
  /-- Number of rows, 0 for all. -/
  localSeqLen : ℕ
  deriving DecidableEq, Repr

/-- A row may be written. -/
def LocalRange.Allows (range : LocalRange) (index : ℕ) : Prop :=
  ¬(0 < range.localSeqLen ∧
    (index < range.localSeqStart ∨ range.localSeqStart + range.localSeqLen ≤ index))

instance (range : LocalRange) (index : ℕ) : Decidable (range.Allows index) :=
  inferInstanceAs (Decidable (¬_))

variable {α : Type*}

/-- Copy one row per position of the batch into the cache. -/
def shiftForward (range : LocalRange) (indexes : List ℕ) (mark : α) (cache : Rows α) : Rows α :=
  indexes.foldl (fun cache index =>
    if range.Allows index then Function.update cache index (some mark) else cache) cache

/-- Rows that attention reads at a position. -/
def attentionRows (pos : ℕ) : List ℕ := List.range (pos + 1)

/-- After the copy the rows of the batch hold its mark, the others what they held. -/
theorem shiftForward_apply (range : LocalRange) (indexes : List ℕ) (mark : α) (cache : Rows α)
    (row : ℕ) : shiftForward range indexes mark cache row =
      if row ∈ indexes ∧ range.Allows row then some mark else cache row := by
  unfold shiftForward
  induction indexes generalizing cache with
  | nil => simp
  | cons index indexes ih =>
    rw [List.foldl_cons, ih]
    by_cases hmem : row ∈ indexes ∧ range.Allows row
    · have hcons : row ∈ index :: indexes ∧ range.Allows row :=
        ⟨List.mem_cons_of_mem _ hmem.1, hmem.2⟩
      rw [if_pos hmem, if_pos hcons]
    · rw [if_neg hmem]
      by_cases hrow : row = index
      · by_cases hallow : range.Allows index
        · have hcons : row ∈ index :: indexes ∧ range.Allows row :=
            ⟨hrow ▸ List.mem_cons_self, hrow ▸ hallow⟩
          rw [if_pos hallow, if_pos hcons, hrow, Function.update_self]
        · have hcons : ¬(row ∈ index :: indexes ∧ range.Allows row) :=
            fun hall => hallow (hrow ▸ hall.2)
          rw [if_neg hallow, if_neg hcons]
      · have hcons : ¬(row ∈ index :: indexes ∧ range.Allows row) := by
          intro hall
          rcases List.mem_cons.mp hall.1 with he | hin
          · exact hrow he
          · exact hmem ⟨hin, hall.2⟩
        rw [if_neg hcons]
        split
        · exact Function.update_of_ne hrow _ _
        · rfl

/-- A cache over a run: forward `k` writes these rows, if any. -/
def cacheAfter (writes : ℕ → List ℕ) : ℕ → Rows ℕ
  | 0 => fun _ => none
  | k + 1 => shiftForward ⟨0, 0⟩ (writes k) k (cacheAfter writes k)

theorem cacheAfter_succ (writes : ℕ → List ℕ) (k row : ℕ) :
    cacheAfter writes (k + 1) row = if row ∈ writes k then some k else cacheAfter writes k row := by
  have hall : (⟨0, 0⟩ : LocalRange).Allows row := fun h => Nat.lt_irrefl 0 h.1
  rw [cacheAfter, shiftForward_apply]
  simp only [hall, and_true]

/-- A row names a forward that wrote it. -/
theorem cacheAfter_some {writes : ℕ → List ℕ} {k row x : ℕ}
    (h : cacheAfter writes k row = some x) : x < k ∧ row ∈ writes x := by
  induction k with
  | zero => cases h
  | succ k ih =>
    rw [cacheAfter_succ] at h
    split at h
    · rename_i hmem
      injection h with h
      rw [← h]
      exact ⟨Nat.lt_succ_self k, hmem⟩
    · have hold := ih h
      exact ⟨by omega, hold.2⟩

/-- A row written once names that forward or a later one. -/
theorem cacheAfter_written {writes : ℕ → List ℕ} {k row x : ℕ} (hx : x < k)
    (hmem : row ∈ writes x) : ∃ y, x ≤ y ∧ cacheAfter writes k row = some y := by
  induction k with
  | zero => exact absurd hx (Nat.not_lt_zero x)
  | succ k ih =>
    rw [cacheAfter_succ]
    by_cases hlast : row ∈ writes k
    · exact ⟨k, by omega, if_pos hlast⟩
    · rw [if_neg hlast]
      have hne : x ≠ k := by
        intro he
        rw [he] at hmem
        exact hlast hmem
      exact ih (by omega)

end LayerSkip.KvCache

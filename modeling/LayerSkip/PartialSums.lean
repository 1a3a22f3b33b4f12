import Mathlib.Algebra.BigOperators.Group.List.Basic
import Mathlib.Algebra.Order.BigOperators.Group.List
import Mathlib.Algebra.Order.Monoid.Defs
import Mathlib.Data.Nat.Find

/-!
# Partial sums

A loop that adds up the numbers of a list stops at the first partial sum that passes a test. Tests that hold
above a bound find the first partial sum above it, and do so in every longer list too.
-/

namespace LayerSkip.PartialSums

section Sums

variable {F : Type} [AddCommMonoid F]

/-- Sum of the first numbers. -/
def sumTo (l : List F) (i : ℕ) : F := (l.take i).sum

/-- Add up numbers until the sum passes a test. The place at which it does, and the sum there. -/
def addUntil (test : F → Bool) : F → List F → Option ℕ × F
  | sum, [] => (none, sum)
  | sum, x :: l =>
    if test (sum + x) then (some 0, sum + x)
    else ((addUntil test (sum + x) l).1.map (· + 1), (addUntil test (sum + x) l).2)

/-- The first place at which a partial sum passes a test. -/
structure FirstAt (test : F → Bool) (l : List F) (i : ℕ) : Prop where
  /-- It is a place of the list. -/
  lt : i < l.length
  /-- The sum passes. -/
  holds : test (sumTo l (i + 1)) = true
  /-- Those before do not. -/
  before : ∀ j < i, test (sumTo l (j + 1)) = false

variable {test : F → Bool} {l : List F} {i : ℕ}

@[simp] theorem sumTo_zero (l : List F) : sumTo l 0 = 0 := by simp [sumTo]

@[simp] theorem sumTo_cons_succ (x : F) (l : List F) (i : ℕ) :
    sumTo (x :: l) (i + 1) = x + sumTo l i := by simp [sumTo]

theorem sumTo_length (l : List F) : sumTo l l.length = l.sum := by
  rw [sumTo, List.take_length]

theorem sumTo_take {m : ℕ} (h : i ≤ m) (l : List F) : sumTo (l.take m) i = sumTo l i := by
  rw [sumTo, List.take_take, Nat.min_eq_left h, sumTo]

theorem FirstAt.le_of_holds (h : FirstAt test l i) {j : ℕ} (hj : test (sumTo l (j + 1)) = true) :
    i ≤ j := by
  by_contra hnot
  have hfalse := h.before j (Nat.lt_of_not_le hnot)
  rw [hj] at hfalse
  cases hfalse

theorem FirstAt.unique {i' : ℕ} (h : FirstAt test l i) (h' : FirstAt test l i') : i = i' :=
  Nat.le_antisymm (h.le_of_holds h'.holds) (h'.le_of_holds h.holds)

/-- The loop stops there. -/
theorem FirstAt.addUntil_eq {sum : F} (h : FirstAt (fun c => test (sum + c)) l i) :
    addUntil test sum l = (some i, sum + sumTo l (i + 1)) := by
  induction l generalizing sum i with
  | nil => exact absurd h.lt (Nat.not_lt_zero i)
  | cons x l ih =>
    cases i with
    | zero =>
      have hholds := h.holds
      rw [sumTo_cons_succ, sumTo_zero, add_zero] at hholds ⊢
      rw [addUntil, if_pos hholds]
    | succ i =>
      have hfirst := h.before 0 (Nat.succ_pos i)
      rw [sumTo_cons_succ, sumTo_zero, add_zero] at hfirst
      have hrest : FirstAt (fun c => test (sum + x + c)) l i := by
        constructor
        · exact Nat.lt_of_succ_lt_succ h.lt
        · have hholds := h.holds
          rw [sumTo_cons_succ, ← add_assoc] at hholds
          exact hholds
        · intro j hj
          have hbefore := h.before (j + 1) (Nat.succ_lt_succ hj)
          rw [sumTo_cons_succ, ← add_assoc] at hbefore
          exact hbefore
      rw [addUntil, hfirst, ih hrest, sumTo_cons_succ, add_assoc]
      simp

theorem FirstAt.addUntil_zero (h : FirstAt test l i) :
    addUntil test 0 l = (some i, sumTo l (i + 1)) := by
  have hshifted : FirstAt (fun c => test (0 + c)) l i := by simpa only [zero_add] using h
  rw [hshifted.addUntil_eq, zero_add]

/-- A sum that passes has a first one. -/
theorem exists_firstAt (hi : i < l.length) (h : test (sumTo l (i + 1)) = true) :
    ∃ m ≤ i, FirstAt test l m := by
  have hex : ∃ m, test (sumTo l (m + 1)) = true := ⟨i, h⟩
  have hle := Nat.find_min' hex h
  refine ⟨Nat.find hex, hle, Nat.lt_of_le_of_lt hle hi, Nat.find_spec hex, ?_⟩
  intro j hj
  exact Bool.eq_false_iff.mpr (Nat.find_min hex hj)

/-- The first numbers decide. -/
theorem firstAt_take {m : ℕ} (hi : i < m) : FirstAt test (l.take m) i ↔ FirstAt test l i := by
  constructor
  · intro h
    have hlt := h.lt
    rw [List.length_take] at hlt
    refine ⟨by omega, ?_, ?_⟩
    · have hholds := h.holds
      rw [sumTo_take hi] at hholds
      exact hholds
    · intro j hj
      have hbefore := h.before j hj
      rw [sumTo_take (by omega)] at hbefore
      exact hbefore
  · intro h
    have hlt := h.lt
    refine ⟨by rw [List.length_take]; omega, ?_, ?_⟩
    · rw [sumTo_take hi]
      exact h.holds
    · intro j hj
      rw [sumTo_take (by omega)]
      exact h.before j hj

end Sums

section Ordered

variable {F : Type} [AddCommMonoid F] [LinearOrder F] [IsOrderedAddMonoid F] {l : List F}

/-- Partial sums of numbers that are not negative do not fall. -/
theorem sumTo_mono (h : ∀ x ∈ l, 0 ≤ x) {i j : ℕ} (hij : i ≤ j) : sumTo l i ≤ sumTo l j := by
  induction l generalizing i j with
  | nil => simp [sumTo]
  | cons x l ih =>
    cases i with
    | zero =>
      rw [sumTo_zero, sumTo]
      exact List.sum_nonneg fun y hy => h y (List.mem_of_mem_take hy)
    | succ i =>
      cases j with
      | zero => omega
      | succ j =>
        rw [sumTo_cons_succ, sumTo_cons_succ]
        exact add_le_add_right (ih (fun y hy => h y (List.mem_cons_of_mem x hy)) (by omega)) x

/-- The first sum from one bound on is the first above another one that is not smaller, unless a sum lies
between the bounds. -/
theorem firstAt_eq_iff (hnonneg : ∀ x ∈ l, 0 ≤ x) {a b : F} (hab : a ≤ b) {i i' : ℕ}
    (hi : FirstAt (fun c => decide (b < c)) l i) (hi' : FirstAt (fun c => decide (a ≤ c)) l i') :
    i' = i ↔ ∀ j < l.length, ¬(a ≤ sumTo l (j + 1) ∧ sumTo l (j + 1) ≤ b) := by
  have habove : b < sumTo l (i + 1) := of_decide_eq_true hi.holds
  have hfrom : a ≤ sumTo l (i' + 1) := of_decide_eq_true hi'.holds
  constructor
  · intro heq j _ hbetween
    have hle : i ≤ j := heq ▸ hi'.le_of_holds (decide_eq_true hbetween.1)
    have hmono := sumTo_mono hnonneg (Nat.succ_le_succ hle)
    exact absurd habove (not_lt_of_ge (hmono.trans hbetween.2))
  · intro hnone
    have hlast : b < sumTo l (i' + 1) := lt_of_not_ge fun h => hnone i' hi'.lt ⟨hfrom, h⟩
    exact Nat.le_antisymm (hi'.le_of_holds (decide_eq_true (hab.trans (le_of_lt habove))))
      (hi.le_of_holds (decide_eq_true hlast))

end Ordered

end LayerSkip.PartialSums
